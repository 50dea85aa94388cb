import Evobench.Evaluator.Acceptance
import Evobench.Evaluator.LogData
import Evobench.Library.Lines
import Evobench.Library.Utf8

/-!
# Reading a log file

* `finishTasks_eq`: the results of the tasks do not depend on the order in which these finish.
* `chunks_spec`: the chunks are the runs of lines that fit a chunk.
* `readRest_spec`, `readFile_spec`: what the messages of a file are, and when there are none.
* `reading_never_panics_iff`: when neither `read_file` nor `from_logdata` panics.
-/

namespace Evobench.Evaluator

open Library

/-! ### Tasks -/

section Tasks

variable {ρ : Type}

theorem join_autoInsert (results : List (Option ρ)) (i : ℕ) (r : ρ) (j : ℕ) :
    ((autoInsert results i r)[j]?).join = if j = i then some r else (results[j]?).join := by
  unfold autoInsert
  split
  · next hlt =>
    rw [List.getElem?_set]
    by_cases hji : i = j
    · subst hji
      simp [hlt]
    · simp [hji, Ne.symm hji]
  · next hge =>
    rw [List.getElem?_set]
    by_cases hji : i = j
    · subst hji
      have hlength : i < results.length + (i + 1 - results.length) := by omega
      simp [hlength]
    · rw [if_neg hji, if_neg (Ne.symm hji), List.getElem?_append]
      split
      · rfl
      · next hj =>
        rw [List.getElem?_eq_none (Nat.not_lt.1 hj), List.getElem?_replicate]
        split
        · rfl
        · rfl

theorem length_autoInsert (results : List (Option ρ)) (i : ℕ) (r : ρ) :
    (autoInsert results i r).length = max results.length (i + 1) := by
  unfold autoInsert
  split
  · rw [List.length_set]
    omega
  · rw [List.length_set, List.length_append, List.length_replicate]
    omega

/-- After some tasks have finished, there are their results. -/
theorem finish_spec (tasks : List ρ) {order : List ℕ} (horder : ∀ i ∈ order, i < tasks.length) {results : List (Option ρ)}
    (hresults : results.length ≤ tasks.length) :
    let finished := order.foldl (fun results i => match tasks[i]? with
      | some r => autoInsert results i r
      | none => results) results
    finished.length ≤ tasks.length ∧
      ∀ j, (finished[j]?).join = if j ∈ order then tasks[j]? else (results[j]?).join := by
  induction order generalizing results with
  | nil => exact ⟨hresults, fun j => by simp⟩
  | cons i order ih =>
    have hi := horder i List.mem_cons_self
    have hrest : ∀ j ∈ order, j < tasks.length := fun j hj => horder j (List.mem_cons_of_mem _ hj)
    have hlength : (autoInsert results i tasks[i]).length ≤ tasks.length := by
      rw [length_autoInsert]
      omega
    obtain ⟨hle, hjoin⟩ := ih hrest hlength
    rw [List.foldl_cons, List.getElem?_eq_getElem hi]
    refine ⟨hle, fun j => ?_⟩
    rw [hjoin j, join_autoInsert]
    by_cases hj : j ∈ order
    · rw [if_pos hj, if_pos (List.mem_cons_of_mem _ hj)]
    · by_cases hji : j = i
      · subst hji
        rw [if_neg hj, if_pos rfl, if_pos List.mem_cons_self, List.getElem?_eq_getElem hi]
      · rw [if_neg hj, if_neg hji, if_neg (by simp [hj, hji])]

/-- **The order of the tasks does not matter.** -/
theorem finishTasks_eq (tasks : List ρ) {order : List ℕ} (horder : order.Perm (List.range tasks.length)) :
    finishTasks tasks order = tasks.map some := by
  have hmem : ∀ i, i ∈ order ↔ i < tasks.length := fun i => horder.mem_iff.trans List.mem_range
  have hstart : ([] : List (Option ρ)).length ≤ tasks.length := Nat.zero_le _
  obtain ⟨hle, hjoin⟩ := finish_spec tasks (fun i hi => (hmem i).1 hi) hstart
  apply List.ext_getElem?
  intro j
  have hj := hjoin j
  by_cases hlt : j < tasks.length
  · rw [if_pos ((hmem j).2 hlt), List.getElem?_eq_getElem hlt, Option.join_eq_some_iff] at hj
    rw [List.getElem?_map, List.getElem?_eq_getElem hlt]
    exact hj
  · rw [List.getElem?_map, List.getElem?_eq_none (Nat.not_lt.1 hlt)]
    exact List.getElem?_eq_none (hle.trans (Nat.not_lt.1 hlt))

end Tasks

/-! ### Parsing the lines of a chunk -/

variable {parse : List UInt8 → Option LogMessage}

theorem collect_eq_ok_iff {path : String} {linenum : ℕ} {lines : List (List UInt8)} {messages : List LogMessage} :
    IterWithLineAndByteCount.collect parse path linenum lines = .ok messages ↔ lines.mapM parse = some messages := by
  induction lines generalizing linenum messages with
  | nil => simp [IterWithLineAndByteCount.collect]
  | cons line lines ih =>
    rw [IterWithLineAndByteCount.collect, List.mapM_cons]
    cases hparse : parse line with
    | none => simp
    | some msg =>
      simp only [Outcome.bind_eq_ok, Outcome.pure_eq, Option.bind_eq_bind, Option.bind_some, Option.bind_eq_some_iff]
      constructor
      · rintro ⟨rest, hrest, he⟩
        exact ⟨rest, ih.1 hrest, congrArg some (Outcome.ok.inj he)⟩
      · rintro ⟨rest, hrest, he⟩
        exact ⟨rest, ih.2 hrest, congrArg Outcome.ok (Option.some.inj he)⟩

theorem collect_ne_panic {path : String} {linenum : ℕ} {lines : List (List UInt8)} {msg : String} :
    IterWithLineAndByteCount.collect parse path linenum lines ≠ .panic msg := by
  induction lines generalizing linenum with
  | nil => simp [IterWithLineAndByteCount.collect]
  | cons line lines ih =>
    rw [IterWithLineAndByteCount.collect]
    cases hparse : parse line with
    | none => simp
    | some message =>
      simp only [ne_eq, Outcome.bind_eq_panic, Outcome.pure_eq]
      rintro (h | ⟨rest, hrest, h⟩)
      · exact ih h
      · cases h

theorem collectResults_eq_ok_iff {i : ℕ} {tasks : List (Outcome String (List LogMessage))}
    {messages : List (List LogMessage)} : LogData.collectResults i (tasks.map some) = .ok messages ↔
      List.Forall₂ (fun task ms => task = .ok ms) tasks messages := by
  induction tasks generalizing i messages with
  | nil =>
    simp only [List.map_nil, LogData.collectResults, List.forall₂_nil_left_iff]
    exact ⟨fun h => (Outcome.ok.inj h).symm, fun h => congrArg Outcome.ok h.symm⟩
  | cons task tasks ih =>
    rw [List.map_cons, LogData.collectResults, List.forall₂_cons_left_iff]
    simp only [Outcome.bind_eq_ok, Outcome.pure_eq]
    constructor
    · rintro ⟨ms, hms, rest, hrest, he⟩
      refine ⟨ms, rest, ?_, ih.1 hrest, (Outcome.ok.inj he).symm⟩
      cases task with
      | ok ms' => exact congrArg Outcome.ok (Outcome.ok.inj hms)
      | err e => cases hms
      | panic msg => cases hms
    · rintro ⟨ms, rest, rfl, hrest, rfl⟩
      exact ⟨ms, rfl, rest, ih.2 hrest, rfl⟩

theorem collectResults_ne_panic {i : ℕ} {tasks : List (Outcome String (List LogMessage))} {msg : String}
    (htasks : ∀ task ∈ tasks, ∀ msg, task ≠ .panic msg) : LogData.collectResults i (tasks.map some) ≠ .panic msg := by
  induction tasks generalizing i with
  | nil => simp [LogData.collectResults]
  | cons task tasks ih =>
    rw [List.map_cons, LogData.collectResults]
    simp only [ne_eq, Outcome.bind_eq_panic, Outcome.pure_eq]
    rintro (h | ⟨ms, hms, h | ⟨rest, hrest, h⟩⟩)
    · cases task with
      | ok ms => cases h
      | err e => cases h
      | panic msg' => exact htasks _ List.mem_cons_self msg' rfl
    · exact ih (fun task htask => htasks task (List.mem_cons_of_mem _ htask)) h
    · cases h

/-! ### Cutting the rest -/

/-- What a line takes, with its line break. -/
abbrev lineSize (line : List UInt8) : ℕ := line.length + 1

/-- Nothing that is one line or less has a line break in it. -/
theorem findLineBreak_eq_none {buf : List UInt8} (h : newline ∉ buf) : LogData.findLineBreak buf = none := by
  rw [LogData.findLineBreak, List.findIdx?_eq_none_iff]
  intro b hb
  rw [List.mem_reverse] at hb
  exact beq_eq_false_iff_ne.2 fun he => h (he ▸ hb)

theorem findLineBreak_eq_some (before : List UInt8) {after : List UInt8} (h : newline ∉ after) :
    LogData.findLineBreak (before ++ newline :: after) = some after.length := by
  have hafter : after.reverse.findIdx? (· == newline) = none := findLineBreak_eq_none h
  rw [LogData.findLineBreak, List.reverse_append, List.reverse_cons, List.append_assoc, List.findIdx?_append, hafter,
    List.singleton_append, List.findIdx?_cons, if_pos (beq_self_eq_true newline)]
  simp

/-- What follows the longest run has no line break within the size of a chunk. -/
theorem newline_not_mem_take {n k : ℕ} {rest : List (List UInt8)} {tail : List UInt8} (hrest : ∀ l ∈ rest, newline ∉ l)
    (htail : newline ∉ tail) (hmax : ∀ x ∈ rest.head?, n < k + lineSize x) :
    newline ∉ (unlines newline rest ++ tail).take (n - k) := by
  cases rest with
  | nil => exact fun hmem => htail (List.mem_of_mem_take hmem)
  | cons line rest =>
    have hlt : n < k + (line.length + 1) := hmax line rfl
    rw [unlines_cons, List.append_assoc, List.take_append_of_le_length (by omega)]
    exact fun hmem => hrest line List.mem_cons_self (List.mem_of_mem_take hmem)

theorem take_min_length (n : ℕ) (bytes : List UInt8) : bytes.take (min n bytes.length) = bytes.take n := by
  rw [← List.take_take, List.take_length]

/-- A chunk is the longest run of lines that fits. -/
theorem chunks_run {n : ℕ} {path : String} {index : ℕ} {run rest : List (List UInt8)} {tail : List UInt8}
    (hne : run ≠ []) (hle : total lineSize run ≤ n) (hmax : ∀ x ∈ rest.head?, n < total lineSize run + lineSize x)
    (hrest : ∀ l ∈ rest, newline ∉ l) (htail : newline ∉ tail) :
    LogData.chunks n path index (unlines newline (run ++ rest) ++ tail) =
      LogData.chunks n path (index + 1) (unlines newline rest ++ tail) >>= fun bufs =>
        .ok (unlines newline run :: bufs) := by
  obtain ⟨xs, hxs⟩ := exists_unlines_eq_append newline hne
  have hlength : (unlines newline run).length = total lineSize run := length_unlines newline run
  have htext : unlines newline (run ++ rest) ++ tail = unlines newline run ++ (unlines newline rest ++ tail) := by
    rw [unlines_append, List.append_assoc]
  have hbuf : (unlines newline (run ++ rest) ++ tail).take n =
      unlines newline run ++ (unlines newline rest ++ tail).take (n - total lineSize run) := by
    rw [htext, List.take_append, List.take_of_length_le (by omega), hlength]
  have hfind : LogData.findLineBreak ((unlines newline (run ++ rest) ++ tail).take n) =
      some ((unlines newline rest ++ tail).take (n - total lineSize run)).length := by
    rw [hbuf, hxs, List.append_assoc, List.singleton_append]
    exact findLineBreak_eq_some xs (newline_not_mem_take hrest htail hmax)
  have hcutoff : ((unlines newline (run ++ rest) ++ tail).take n).length -
      ((unlines newline rest ++ tail).take (n - total lineSize run)).length = (unlines newline run).length := by
    rw [hbuf, List.length_append]
    omega
  have hnonempty : unlines newline (run ++ rest) ++ tail ≠ [] := by
    rw [htext, hxs]
    simp
  rw [LogData.chunks, dif_neg hnonempty]
  simp only [take_min_length]
  split
  · next he =>
    rw [take_min_length] at he
    cases hfind.symm.trans he
  · next i he =>
    rw [take_min_length] at he
    obtain rfl := Option.some.inj (hfind.symm.trans he)
    rw [hcutoff, hbuf, List.take_left, htext, List.drop_left]
    rfl

/-- A line that is too long for a chunk is an error, and so is a last line without a line break. -/
theorem chunks_stuck {n : ℕ} {path : String} {index : ℕ} {rest : List (List UInt8)} {tail : List UInt8}
    (hmax : ∀ x ∈ rest.head?, n < lineSize x) (hrest : ∀ l ∈ rest, newline ∉ l) (htail : newline ∉ tail)
    (hne : unlines newline rest ++ tail ≠ []) :
    ∃ e, LogData.chunks n path index (unlines newline rest ++ tail) = .err e := by
  have hnot : newline ∉ (unlines newline rest ++ tail).take n :=
    newline_not_mem_take (k := 0) hrest htail fun x hx => by
      have := hmax x hx
      omega
  rw [LogData.chunks, dif_neg hne]
  simp only [take_min_length]
  split
  · exact ⟨_, rfl⟩
  · next i he =>
    rw [take_min_length] at he
    cases (findLineBreak_eq_none hnot).symm.trans he

/-- **The chunks of a text** are its runs of lines, if it is cut into such; if a line is too long or the last one has no
line break, there is an error. -/
theorem chunks_spec (n : ℕ) (path : String) (index : ℕ) {ls : List (List UInt8)} {tail : List UInt8}
    (hls : ∀ l ∈ ls, newline ∉ l) (htail : newline ∉ tail) :
    (tail = [] ∧ ∃ runs, Packed lineSize n ls runs ∧
        LogData.chunks n path index (unlines newline ls ++ tail) = .ok (runs.map (unlines newline))) ∨
      ((tail ≠ [] ∨ ∃ l ∈ ls, n < lineSize l) ∧
        ∃ e, LogData.chunks n path index (unlines newline ls ++ tail) = .err e) := by
  induction hlength : ls.length using Nat.strong_induction_on generalizing ls index with
  | _ m ih =>
    subst hlength
    obtain ⟨run, rest, rfl, hle, hmax⟩ := exists_run lineSize n ls
    have hrest : ∀ l ∈ rest, newline ∉ l := fun l hl => hls l (List.mem_append_right _ hl)
    by_cases hne : run = []
    · subst hne
      rw [List.nil_append] at hls ⊢
      cases rest with
      | nil =>
        by_cases htail' : tail = []
        · subst htail'
          left
          refine ⟨rfl, [], .nil, ?_⟩
          rw [LogData.chunks]
          rfl
        · right
          exact ⟨.inl htail', chunks_stuck (by simp) hrest htail (by simpa using htail')⟩
      | cons line rest =>
        right
        have hlt : n < lineSize line := by
          have := hmax line rfl
          rwa [total_nil, Nat.zero_add] at this
        refine ⟨.inr ⟨line, List.mem_cons_self, hlt⟩, chunks_stuck ?_ hrest htail (by simp)⟩
        intro x hx
        obtain rfl := Option.some.inj hx
        exact hlt
    · have hlt : rest.length < (run ++ rest).length := by
        have := List.length_pos_iff.2 hne
        rw [List.length_append]
        omega
      rw [chunks_run hne hle hmax hrest htail]
      rcases ih rest.length hlt (index + 1) hrest rfl with ⟨rfl, runs, hruns, he⟩ | ⟨hstuck, e, he⟩
      · left
        refine ⟨rfl, run :: runs, .cons hne hle hmax hruns, ?_⟩
        rw [he]
        rfl
      · right
        constructor
        · rcases hstuck with htail' | ⟨l, hl, hlarge⟩
          · exact .inl htail'
          · exact .inr ⟨l, List.mem_append_right _ hl, hlarge⟩
        · refine ⟨e, ?_⟩
          rw [he]
          rfl

/-! ### The rest of a file -/

/-- The lines of a chunk, without blank ones at its end. -/
def runLines (run : List (List UInt8)) : List (List UInt8) := (trimAsciiEnd (unlines newline run)).splitOn newline

/-- **The messages of the rest of a file**, for each chunk. -/
structure RestReads (parse : List UInt8 → Option LogMessage) (chunkSize : ℕ) (rest : List UInt8)
    (messages : List (List LogMessage)) : Prop where
  /-- It is cut into chunks, and each line of a chunk is a message. -/
  lines : ∃ ls runs, rest = unlines newline ls ∧ (∀ l ∈ ls, newline ∉ l) ∧ Packed lineSize chunkSize ls runs ∧
    List.Forall₂ (fun run ms => (runLines run).mapM parse = some ms) runs messages
  /-- The last one is `TEnd`. -/
  complete : ∃ ms timing, messages.getLast? = some ms ∧ ms.getLast? = some (.tEnd timing)

theorem readRest_of_chunks (parse : List UInt8 → Option LogMessage) (order : TaskOrder) {n : ℕ} {path : String}
    {rest : List UInt8} {runs : List (List (List UInt8))}
    (hchunks : LogData.chunks n path 0 rest = .ok (runs.map (unlines newline))) :
    (∀ messages, LogData.readRest parse n order path rest = .ok messages ↔
        List.Forall₂ (fun run ms => (runLines run).mapM parse = some ms) runs messages ∧
          ∃ ms timing, messages.getLast? = some ms ∧ ms.getLast? = some (.tEnd timing)) ∧
      ∀ msg, LogData.readRest parse n order path rest ≠ .panic msg := by
  have hperm : (order.order (runs.map (unlines newline)).length).Perm
      (List.range ((runs.map (unlines newline)).map (LogData.readChunk parse path)).length) := by
    simp only [List.length_map]
    exact order.perm _
  have hfinish := finishTasks_eq ((runs.map (unlines newline)).map (LogData.readChunk parse path)) hperm
  have htasks : ∀ task ∈ (runs.map (unlines newline)).map (LogData.readChunk parse path), ∀ msg, task ≠ .panic msg := by
    intro task htask msg
    obtain ⟨buf, -, rfl⟩ := List.mem_map.1 htask
    exact collect_ne_panic
  have hcollect : ∀ messages, LogData.collectResults 0 (((runs.map (unlines newline)).map
      (LogData.readChunk parse path)).map some) = .ok messages ↔
        List.Forall₂ (fun run ms => (runLines run).mapM parse = some ms) runs messages := by
    intro messages
    rw [collectResults_eq_ok_iff, List.map_map, List.forall₂_map_left_iff]
    constructor
    · exact fun h => h.imp fun run ms he => collect_eq_ok_iff.1 he
    · exact fun h => h.imp fun run ms he => collect_eq_ok_iff.2 he
  rw [LogData.readRest, hchunks, Outcome.ok_bind, hfinish]
  constructor
  · intro messages
    rw [Outcome.bind_eq_ok]
    constructor
    · rintro ⟨messages', hmessages', he⟩
      cases hlast : messages'.getLast? with
      | none =>
        rw [hlast] at he
        cases he
      | some ms =>
        rw [hlast] at he
        cases hlast' : ms.getLast? with
        | none => simp [hlast'] at he
        | some last =>
          simp only [hlast'] at he
          split at he
          · next hend =>
            obtain rfl := Outcome.ok.inj he
            refine ⟨(hcollect _).1 hmessages', ms, ?_⟩
            cases last with
            | tEnd timing => exact ⟨timing, hlast, hlast'⟩
            | _ => cases hend
          · cases he
    · rintro ⟨hmessages, ms, timing, hlast, hlast'⟩
      refine ⟨messages, (hcollect _).2 hmessages, ?_⟩
      simp only [hlast, hlast']
      rfl
  · intro msg
    rw [ne_eq, Outcome.bind_eq_panic]
    rintro (h | ⟨messages', -, he⟩)
    · exact collectResults_ne_panic htasks h
    · cases hlast : messages'.getLast? with
      | none =>
        rw [hlast] at he
        cases he
      | some ms =>
        rw [hlast] at he
        cases hlast' : ms.getLast? with
        | none => simp [hlast'] at he
        | some last =>
          simp only [hlast'] at he
          split at he
          · cases he
          · cases he

/-- **What is read from the rest of a file.** -/
theorem readRest_spec (parse : List UInt8 → Option LogMessage) (n : ℕ) (order : TaskOrder) (path : String)
    (rest : List UInt8) :
    (∀ messages, LogData.readRest parse n order path rest = .ok messages ↔ RestReads parse n rest messages) ∧
      ∀ msg, LogData.readRest parse n order path rest ≠ .panic msg := by
  obtain ⟨ls, tail, rfl, hls, htail⟩ := exists_unlines newline rest
  rcases chunks_spec n path 0 hls htail with ⟨rfl, runs, hruns, he⟩ | ⟨hstuck, e, he⟩
  · obtain ⟨hok, hpanic⟩ := readRest_of_chunks parse order he
    refine ⟨fun messages => (hok messages).trans ?_, hpanic⟩
    constructor
    · rintro ⟨hlines, hcomplete⟩
      exact ⟨⟨ls, runs, List.append_nil _, hls, hruns, hlines⟩, hcomplete⟩
    · rintro ⟨⟨ls', runs', hrest, hls', hruns', hlines⟩, hcomplete⟩
      have hsplit := splitOn_unlines hls htail
      rw [hrest, ← List.append_nil (unlines newline ls'), splitOn_unlines hls' htail] at hsplit
      obtain rfl := (List.append_inj' hsplit rfl).1
      obtain rfl := hruns.unique hruns'
      exact ⟨hlines, hcomplete⟩
  · have herr : LogData.readRest parse n order path (unlines newline ls ++ tail) = .err e := by
      rw [LogData.readRest, he]
      rfl
    refine ⟨fun messages => ?_, fun msg => by rw [herr]; simp⟩
    rw [herr]
    refine iff_of_false (by simp) ?_
    rintro ⟨⟨ls', runs', hrest, hls', hruns', -⟩, -⟩
    have hsplit := splitOn_unlines hls htail
    rw [hrest, ← List.append_nil (unlines newline ls'), splitOn_unlines hls' List.not_mem_nil] at hsplit
    obtain ⟨rfl, htail'⟩ := List.append_inj' hsplit rfl
    rcases hstuck with hne | ⟨l, hl, hlarge⟩
    · exact hne (List.singleton_inj.1 htail').symm
    · have := hruns'.size_le hl
      omega

/-! ### The file -/

/-- **The messages of a file**, for each chunk: what follows the two lines of the header. -/
def FileReads (parse : List UInt8 → Option LogMessage) (chunkSize : ℕ) (input : List UInt8)
    (messages : List (List LogMessage)) : Prop :=
  ∃ l₁ l₂ rest, input = l₁ ++ newline :: (l₂ ++ newline :: rest) ∧ newline ∉ l₁ ∧ newline ∉ l₂ ∧
    (∃ version evobenchVersion, parse l₁ = some (.start version evobenchVersion)) ∧
    (∃ metadata, parse l₂ = some (.metadata metadata)) ∧ RestReads parse chunkSize rest messages

/-- The file is a header without a line break at the end. -/
def EndsAfterHeader (parse : List UInt8 → Option LogMessage) (input : List UInt8) : Prop :=
  ∃ l₁ l₂, input.splitOn newline = [l₁, l₂] ∧
    (∃ version evobenchVersion, parse l₁ = some (.start version evobenchVersion)) ∧
    ∃ metadata, parse l₂ = some (.metadata metadata)

/-- What `read_file` does. -/
inductive FileOutcome (parse : List UInt8 → Option LogMessage) (chunkSize : ℕ) (input : List UInt8) :
    Outcome String LogData → Prop where
  /-- The messages are read. -/
  | ok {log : LogData} (hreads : FileReads parse chunkSize input log.messages) : FileOutcome parse chunkSize input (.ok log)
  /-- There is an error. -/
  | err {e : String} (hreads : ∀ messages, ¬ FileReads parse chunkSize input messages) (hends : ¬ EndsAfterHeader parse input) :
      FileOutcome parse chunkSize input (.err e)
  /-- The rest is looked for after the end. -/
  | panic {msg : String} (hreads : ∀ messages, ¬ FileReads parse chunkSize input messages)
      (hends : EndsAfterHeader parse input) : FileOutcome parse chunkSize input (.panic msg)

theorem FileReads.splitOn {n : ℕ} {input : List UInt8} {messages : List (List LogMessage)}
    (h : FileReads parse n input messages) : ∃ l₁ l₂ rest, input.splitOn newline = l₁ :: l₂ :: rest.splitOn newline ∧
      input = l₁ ++ newline :: (l₂ ++ newline :: rest) ∧
      (∃ version evobenchVersion, parse l₁ = some (.start version evobenchVersion)) ∧
      (∃ metadata, parse l₂ = some (.metadata metadata)) ∧ RestReads parse n rest messages := by
  obtain ⟨l₁, l₂, rest, rfl, h₁, h₂, hstart, hmetadata, hrest⟩ := h
  refine ⟨l₁, l₂, rest, ?_, rfl, hstart, hmetadata, hrest⟩
  rw [List.splitOn_append_cons_self_of_not_mem h₁, List.splitOn_append_cons_self_of_not_mem h₂]

theorem FileReads.not_endsAfterHeader {n : ℕ} {input : List UInt8} {messages : List (List LogMessage)}
    (h : FileReads parse n input messages) : ¬ EndsAfterHeader parse input := by
  rintro ⟨l₁, l₂, he, -⟩
  obtain ⟨l₁', l₂', rest, hsplit, -⟩ := h.splitOn
  rw [he] at hsplit
  exact List.splitOn_ne_nil newline rest (List.cons.inj (List.cons.inj hsplit).2).2.symm

theorem RestReads.unique {n : ℕ} {rest : List UInt8} {messages messages' : List (List LogMessage)}
    (h : RestReads parse n rest messages) (h' : RestReads parse n rest messages') : messages = messages' := by
  have hok := (readRest_spec parse n .spawned "" rest).1
  exact Outcome.ok.inj (((hok messages).2 h).symm.trans ((hok messages').2 h'))

/-- A file has one list of messages. -/
theorem FileReads.unique {n : ℕ} {input : List UInt8} {messages messages' : List (List LogMessage)}
    (h : FileReads parse n input messages) (h' : FileReads parse n input messages') : messages = messages' := by
  obtain ⟨l₁, l₂, rest, hsplit, hinput, -, -, hrest⟩ := h.splitOn
  obtain ⟨l₁', l₂', rest', hsplit', hinput', -, -, hrest'⟩ := h'.splitOn
  obtain ⟨rfl, htails⟩ := List.cons.inj (hsplit.symm.trans hsplit')
  obtain ⟨rfl, -⟩ := List.cons.inj htails
  obtain rfl : rest = rest' := by simpa using hinput.symm.trans hinput'
  exact hrest.unique hrest'

/-- A file that is one line. -/
theorem readFile_one (n : ℕ) (order : TaskOrder) (path : String) {line : List UInt8} (hline : newline ∉ line) :
    FileOutcome parse n line (LogData.readFile parse n order path line) := by
  have hsplit : line.splitOn newline = [line] := List.splitOn_eq_singleton hline
  have hreads : ∀ messages, ¬ FileReads parse n line messages := by
    intro messages h
    obtain ⟨l₁, l₂, rest, he, -⟩ := h.splitOn
    rw [hsplit] at he
    cases he
  have hends : ¬ EndsAfterHeader parse line := by
    rintro ⟨l₁, l₂, he, -⟩
    rw [hsplit] at he
    cases he
  simp only [LogData.readFile, IterWithLineAndByteCount.new, IterWithLineAndByteCount.next, hsplit]
  cases parse line with
  | none => exact .err hreads hends
  | some msg =>
    cases msg with
    | start version evobenchVersion => exact .err hreads hends
    | _ => exact .err hreads hends

/-- A file that is two lines, without a line break after the second one. -/
theorem readFile_two (n : ℕ) (order : TaskOrder) (path : String) {l₁ l₂ : List UInt8} (h₁ : newline ∉ l₁)
    (h₂ : newline ∉ l₂) :
    FileOutcome parse n (l₁ ++ newline :: l₂) (LogData.readFile parse n order path (l₁ ++ newline :: l₂)) := by
  have hsplit : (l₁ ++ newline :: l₂).splitOn newline = [l₁, l₂] := by
    rw [List.splitOn_append_cons_self_of_not_mem h₁, List.splitOn_eq_singleton h₂]
  have hreads : ∀ messages, ¬ FileReads parse n (l₁ ++ newline :: l₂) messages := by
    intro messages h
    obtain ⟨l₁', l₂', rest, he, -⟩ := h.splitOn
    rw [hsplit] at he
    exact List.splitOn_ne_nil newline rest (List.cons.inj (List.cons.inj he).2).2.symm
  have hends : EndsAfterHeader parse (l₁ ++ newline :: l₂) ↔
      (∃ version evobenchVersion, parse l₁ = some (.start version evobenchVersion)) ∧
        ∃ metadata, parse l₂ = some (.metadata metadata) := by
    constructor
    · rintro ⟨l₁', l₂', he, hstart, hmetadata⟩
      rw [hsplit] at he
      cases he
      exact ⟨hstart, hmetadata⟩
    · rintro ⟨hstart, hmetadata⟩
      exact ⟨l₁, l₂, hsplit, hstart, hmetadata⟩
  simp only [LogData.readFile, IterWithLineAndByteCount.new, IterWithLineAndByteCount.next, hsplit]
  cases hparse₁ : parse l₁ with
  | none => exact .err hreads (by simp [hends, hparse₁])
  | some msg =>
    cases msg with
    | start version evobenchVersion =>
      cases hparse₂ : parse l₂ with
      | none => exact .err hreads (by simp [hends, hparse₂])
      | some msg =>
        cases msg with
        | metadata metadata =>
          simp only [Outcome.ok_bind]
          rw [if_neg (by
            rw [List.length_append, List.length_cons]
            omega)]
          exact .panic hreads (hends.2 ⟨⟨_, _, hparse₁⟩, _, hparse₂⟩)
        | _ => exact .err hreads (by simp [hends, hparse₂])
    | _ => exact .err hreads (by simp [hends, hparse₁])

/-- A file with more than the header. -/
theorem readFile_more (n : ℕ) (order : TaskOrder) (path : String) {l₁ l₂ rest : List UInt8} (h₁ : newline ∉ l₁)
    (h₂ : newline ∉ l₂) :
    FileOutcome parse n (l₁ ++ newline :: (l₂ ++ newline :: rest))
      (LogData.readFile parse n order path (l₁ ++ newline :: (l₂ ++ newline :: rest))) := by
  have hsplit : (l₁ ++ newline :: (l₂ ++ newline :: rest)).splitOn newline = l₁ :: l₂ :: rest.splitOn newline := by
    rw [List.splitOn_append_cons_self_of_not_mem h₁, List.splitOn_append_cons_self_of_not_mem h₂]
  have hends : ¬ EndsAfterHeader parse (l₁ ++ newline :: (l₂ ++ newline :: rest)) := by
    rintro ⟨l₁', l₂', he, -⟩
    rw [hsplit] at he
    exact List.splitOn_ne_nil newline rest (List.cons.inj (List.cons.inj he).2).2
  have hreads : ∀ messages, FileReads parse n (l₁ ++ newline :: (l₂ ++ newline :: rest)) messages →
      (∃ version evobenchVersion, parse l₁ = some (.start version evobenchVersion)) ∧
        (∃ metadata, parse l₂ = some (.metadata metadata)) ∧ RestReads parse n rest messages := by
    intro messages h
    obtain ⟨l₁', l₂', rest', he, hinput, hstart, hmetadata, hrest⟩ := h.splitOn
    rw [hsplit] at he
    obtain ⟨rfl, htails⟩ := List.cons.inj he
    obtain ⟨rfl, -⟩ := List.cons.inj htails
    obtain rfl : rest = rest' := by simpa using hinput
    exact ⟨hstart, hmetadata, hrest⟩
  have hdrop : (l₁ ++ newline :: (l₂ ++ newline :: rest)).drop (0 + (l₁.length + 1) + (l₂.length + 1)) = rest := by
    rw [show 0 + (l₁.length + 1) + (l₂.length + 1) = l₁.length + (l₂.length + 1 + 1) by omega, List.drop_append]
    simp
  obtain ⟨hok, hpanic⟩ := readRest_spec parse n order path rest
  simp only [LogData.readFile, IterWithLineAndByteCount.new, IterWithLineAndByteCount.next, hsplit]
  cases hparse₁ : parse l₁ with
  | none =>
    refine .err (fun messages h => ?_) hends
    simpa [hparse₁] using (hreads messages h).1
  | some msg =>
    cases msg with
    | start version evobenchVersion =>
      cases hparse₂ : parse l₂ with
      | none =>
        refine .err (fun messages h => ?_) hends
        simpa [hparse₂] using (hreads messages h).2.1
      | some msg =>
        cases msg with
        | metadata metadata =>
          simp only [Outcome.ok_bind]
          rw [if_pos (by
            rw [List.length_append, List.length_cons, List.length_append, List.length_cons]
            omega), hdrop]
          cases hrest : LogData.readRest parse n order path rest with
          | ok messages =>
            exact .ok ⟨l₁, l₂, rest, rfl, h₁, h₂, ⟨_, _, hparse₁⟩, ⟨_, hparse₂⟩, (hok messages).1 hrest⟩
          | err e =>
            refine .err (fun messages h => ?_) hends
            cases hrest.symm.trans ((hok messages).2 (hreads messages h).2.2)
          | panic msg => exact absurd hrest (hpanic msg)
        | _ =>
          refine .err (fun messages h => ?_) hends
          simpa [hparse₂] using (hreads messages h).2.1
    | _ =>
      refine .err (fun messages h => ?_) hends
      simpa [hparse₁] using (hreads messages h).1

/-- **What `read_file` does**, for any order of the tasks. -/
theorem readFile_spec (parse : List UInt8 → Option LogMessage) (n : ℕ) (order : TaskOrder) (path : String)
    (input : List UInt8) : FileOutcome parse n input (LogData.readFile parse n order path input) := by
  by_cases hone : newline ∈ input
  · obtain ⟨l₁, rest, rfl, h₁⟩ := List.eq_append_cons_of_mem hone
    by_cases htwo : newline ∈ rest
    · obtain ⟨l₂, rest, rfl, h₂⟩ := List.eq_append_cons_of_mem htwo
      exact readFile_more n order path h₁ h₂
    · exact readFile_two n order path h₁ htwo
  · exact readFile_one n order path hone

/-! ### From the file to the tree -/

/-- The loop of `from_logdata` panics at the message `m` after the messages `pre`: there is no id left for its span, or it
ends a scope of the same kind as the innermost open one, with another name. -/
def Mismatched (pre : List DataMessage) (m : DataMessage) : Prop :=
  (Fits (threadItems m.tid pre) m ∧ 2 ^ 32 ≤ openers (pre ++ [m])) ∨
    ∃ kind pn pn' st, m.token = .closing (kind, pn) ∧ Pending tok st (threadItems m.tid pre) ∧
      (openKeys tok st).head? = some (kind, pn') ∧ pn' ≠ pn

theorem mismatched_iff {pre : List DataMessage} {lifetime : ThreadNumber → ThreadId × ℕ} {s : Reader}
    (h : Reads pre lifetime s) (m : DataMessage) :
    Mismatched pre m ↔ ¬ (Fits (threadItems m.tid pre) m ∧ openers (pre ++ [m]) < 2 ^ 32) ∧
      ¬ Refused (threadItems m.tid pre) m := by
  constructor
  · rintro (⟨hfits, hroom⟩ | ⟨kind, pn, pn', st, htoken, hst, hhead, hne⟩)
    · exact ⟨fun hfit => absurd hfit.2 (Nat.not_lt.2 hroom), not_refused_of_fits hfits⟩
    · constructor
      · rintro ⟨hfits, -⟩
        simp only [Fits, htoken] at hfits
        obtain ⟨st', hst', hhead'⟩ := hfits
        obtain rfl := hst.unique hst'
        rw [hhead] at hhead'
        exact hne (Prod.mk.inj (Option.some.inj hhead')).2
      · intro hrefused
        simp only [Refused, htoken] at hrefused
        obtain ⟨st', hst', hkind⟩ := hrefused
        obtain rfl := hst.unique hst'
        exact hkind (kind, pn') hhead rfl
  · rintro ⟨hmisfit, hrefused⟩
    by_cases hfits : Fits (threadItems m.tid pre) m
    · exact .inl ⟨hfits, Nat.not_lt.1 fun hroom => hmisfit ⟨hfits, hroom⟩⟩
    · right
      cases htoken : m.token with
      | opening key => exact absurd (Fits.of_token (.inr ⟨key, htoken⟩)) hfits
      | skip => exact absurd (Fits.of_token (.inl htoken)) hfits
      | mark =>
        simp only [Fits, Refused, htoken] at hfits hrefused
        push Not at hfits
        exact absurd hfits hrefused
      | closing key =>
        obtain ⟨st, hst, -⟩ := h.pendings m.tid
        simp only [Fits, Refused, htoken] at hfits hrefused
        push Not at hfits hrefused
        obtain ⟨⟨kind, pn'⟩, hhead, hkind⟩ := hrefused st hst
        obtain rfl : kind = key.1 := hkind
        refine ⟨key.1, key.2, pn', st, rfl, hst, hhead, ?_⟩
        rintro rfl
        exact hfits st hst hhead

/-- The loop panics at a message of a file: also at one that has no data. -/
def Breaks (pre : List DataMessage) (message : LogMessage) : Prop :=
  ∀ m, message.optDataMessage = some m → Mismatched pre m

/-- The messages of a file, after the data messages `pre`, have one at which the loop panics, and all before it fit. -/
def BreaksAfter (pre : List DataMessage) (messages : List LogMessage) : Prop :=
  ∃ p message q added, messages = p ++ message :: q ∧ p.map LogMessage.optDataMessage = added.map some ∧
    AllFit (pre ++ added) ∧ Breaks (pre ++ added) message

theorem breaksAfter_cons {pre : List DataMessage} (hpre : AllFit pre) {message : LogMessage} {m : DataMessage}
    (hm : message.optDataMessage = some m) (messages : List LogMessage) :
    BreaksAfter pre (message :: messages) ↔ Mismatched pre m ∨ BreaksAfter (pre ++ [m]) messages := by
  constructor
  · rintro ⟨p, message', q, added, he, hadded, hfits, hbreaks⟩
    cases p with
    | nil =>
      obtain ⟨rfl, rfl⟩ := List.cons.inj he
      obtain rfl := List.map_eq_nil_iff.1 hadded.symm
      rw [List.append_nil] at hbreaks
      exact .inl (hbreaks m hm)
    | cons x p =>
      obtain ⟨rfl, rfl⟩ := List.cons.inj he
      cases added with
      | nil => cases hadded
      | cons m' added =>
        rw [List.map_cons, List.map_cons] at hadded
        obtain ⟨hm', htails⟩ := List.cons.inj hadded
        obtain rfl := Option.some.inj (hm.symm.trans hm')
        rw [List.append_cons] at hfits hbreaks
        exact .inr ⟨p, message', q, added, rfl, htails, hfits, hbreaks⟩
  · rintro (hmismatched | ⟨p, message', q, added, rfl, hadded, hfits, hbreaks⟩)
    · refine ⟨[], message, messages, [], rfl, rfl, by rwa [List.append_nil], ?_⟩
      intro m' hm'
      obtain rfl := Option.some.inj (hm.symm.trans hm')
      rwa [List.append_nil]
    · refine ⟨message :: p, message', q, m :: added, rfl, ?_, ?_, ?_⟩
      · rw [List.map_cons, List.map_cons, hm, hadded]
      · rwa [List.append_cons]
      · rwa [List.append_cons]

/-- All that fit are not followed by one that does not. -/
theorem BreaksAfter.fits {pre : List DataMessage} {m : DataMessage} {messages : List LogMessage}
    (h : BreaksAfter (pre ++ [m]) messages) : Fits (threadItems m.tid pre) m ∧ openers (pre ++ [m]) < 2 ^ 32 := by
  obtain ⟨p, message, q, added, -, -, hfits, -⟩ := h
  exact hfits pre m added (by rw [List.append_assoc, List.singleton_append])

/-- **When the loop over the messages of a file panics.** -/
theorem readMessages_panics_iff {pre : List DataMessage} {lifetime : ThreadNumber → ThreadId × ℕ} {s : Reader}
    (h : Reads pre lifetime s) (hpre : AllFit pre) (messages : List LogMessage) :
    (∃ msg, s.readMessages messages = .panic msg) ↔ BreaksAfter pre messages := by
  induction messages generalizing pre lifetime s with
  | nil =>
    refine iff_of_false (by simp [Reader.readMessages]) ?_
    rintro ⟨p, message, q, added, he, -⟩
    simp at he
  | cons message messages ih =>
    rw [Reader.readMessages, LogMessage.dataMessage]
    cases hm : message.optDataMessage with
    | none =>
      refine iff_of_true ⟨_, rfl⟩ ⟨[], message, messages, [], rfl, rfl, by rwa [List.append_nil], ?_⟩
      intro m hm'
      cases hm.symm.trans hm'
    | some m =>
      rw [breaksAfter_cons hpre hm]
      simp only [Outcome.ok_bind]
      have hstep := step_spec h m
      generalize s.step m = o at hstep
      cases hstep with
      | ok hfits hreads =>
        have hnot : ¬ Mismatched pre m := fun hmismatched => ((mismatched_iff h m).1 hmismatched).1 ⟨hfits, hreads.fits⟩
        rw [Outcome.ok_bind, ih hreads (hpre.snoc ⟨hfits, hreads.fits⟩), or_iff_right hnot]
      | err hrefused =>
        refine iff_of_false (by simp) ?_
        rintro (hmismatched | hbreaks)
        · exact ((mismatched_iff h m).1 hmismatched).2 hrefused
        · exact not_refused_of_fits hbreaks.fits.1 hrefused
      | panic hfits hrefused => exact iff_of_true ⟨_, rfl⟩ (.inl ((mismatched_iff h m).2 ⟨hfits, hrefused⟩))

/-- When `from_logdata` panics. -/
theorem fromLogData_panics_iff (log : LogData) :
    (∃ msg, LogDataTree.fromLogData log = .panic msg) ↔ BreaksAfter [] log.messages.flatten := by
  rw [← readMessages_panics_iff (Reads.new fun _ => (0, 0)) .nil, LogDataTree.fromLogData]
  simp [Outcome.bind_eq_panic]

/-- **Reading a log file never panics** exactly if the file does not end right after the second line of the header without a
line break, and no message of the file breaks the loop over the messages: no header message among them, no end of a scope
with the kind of the innermost open scope of its thread and another name, no span without an id. -/
theorem reading_never_panics_iff (parse : List UInt8 → Option LogMessage) (chunkSize : ℕ) (order : TaskOrder)
    (path : String) (input : List UInt8) :
    (∀ msg, (LogData.readFile parse chunkSize order path input >>= LogDataTree.fromLogData) ≠ .panic msg) ↔
      ¬ EndsAfterHeader parse input ∧
        ∀ messages, FileReads parse chunkSize input messages → ¬ BreaksAfter [] messages.flatten := by
  have hspec := readFile_spec parse chunkSize order path input
  generalize LogData.readFile parse chunkSize order path input = o at hspec
  cases hspec with
  | @ok log hreads =>
    rw [Outcome.ok_bind]
    constructor
    · intro hnever
      refine ⟨fun hends => ?_, fun messages hreads' hbreaks => ?_⟩
      · exact hreads.not_endsAfterHeader hends
      · obtain rfl := hreads.unique hreads'
        obtain ⟨msg, hmsg⟩ := (fromLogData_panics_iff log).2 hbreaks
        exact hnever msg hmsg
    · rintro ⟨-, hnever⟩ msg hmsg
      exact hnever log.messages hreads ((fromLogData_panics_iff log).1 ⟨msg, hmsg⟩)
  | err hreads hends =>
    rw [Outcome.err_bind]
    refine iff_of_true (fun msg h => by cases h) ⟨hends, fun messages hreads' => absurd hreads' (hreads messages)⟩
  | @panic msg hreads hends =>
    rw [Outcome.panic_bind]
    exact iff_of_false (fun hnever => hnever msg rfl) fun h => h.1 hends

/-! ### A header by itself -/

/-- The first line of a log. -/
def startLine : List UInt8 :=
  utf8 "\x7b\"Start\":\x7b\"evobench_log_version\":1,\"evobench_version\":\"1\"\x7d\x7d".toList

/-- The second line of a log. -/
def metadataLine : List UInt8 :=
  utf8 ("\x7b\"Metadata\":\x7b\"hostname\":\"h\",\"username\":\"u\",\"uname\":\x7b\"sysname\":\"Linux\",".toList ++
    "\"nodename\":\"n\",\"release\":\"r\",\"version\":\"v\",\"machine\":\"m\"\x7d,\"compiler\":\"c\"\x7d\x7d".toList)

/-- The metadata in it. -/
def sampleMetadata : Metadata := ⟨"h", "u", ⟨"Linux", "n", "r", "v", "m"⟩, "c"⟩

/-- A parser of the two lines of a header. -/
def parseHeader (line : List UInt8) : Option LogMessage :=
  if line = startLine then some (.start 1 "1")
  else if line = metadataLine then some (.metadata sampleMetadata)
  else none

/-- A file that has been cut off after its header, before the line break, is a panic. -/
theorem header_only_panics :
    ¬ ∀ msg, (LogData.readFile parseHeader LogData.chunkSizeBytes .spawned "a.log"
      (startLine ++ newline :: metadataLine) >>= LogDataTree.fromLogData) ≠ .panic msg := by
  have hpanic : (LogData.readFile parseHeader LogData.chunkSizeBytes .spawned "a.log"
      (startLine ++ newline :: metadataLine)).isPanic = true := by
    decide +kernel
  intro hnever
  cases hread : LogData.readFile parseHeader LogData.chunkSizeBytes .spawned "a.log"
      (startLine ++ newline :: metadataLine) with
  | ok log =>
    rw [hread] at hpanic
    cases hpanic
  | err e =>
    rw [hread] at hpanic
    cases hpanic
  | panic msg =>
    rw [hread] at hnever
    exact hnever msg rfl

end Evobench.Evaluator

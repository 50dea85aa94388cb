import Evobench.Evaluator.ChunkedReading
import Evobench.Evaluator.Evaluation
import Evobench.Evaluator.Forest
import Evobench.Probes.OutputFile

/-!
# From the probes to the evaluator

The evaluator reads the file that a process has written.

* `accepted_is_complete`: a file that is read has been written by a process that has come to its end, and nothing that any of
  its threads has logged is missing. So a process that has been killed, or that could not write, leaves no such file.
* `log_is_read_iff`: the file of a process that has come to its end is read, and gives its call forest, unless a record is too
  long for a chunk, a time does not fit, or there are too many spans.
-/

namespace Evobench.Probes

open Library Evaluator

section Reading

variable {parse : List UInt8 → Option LogMessage} {signed : Bool} {pid : Pid}

theorem isJsonParser_of_readsJson (h : ReadsJson parse) : IsJsonParser parse := ⟨h.blank, h.trailing⟩

/-! ### Lines -/

theorem Line.exists_json (pid : Pid) (line : Line) : ∃ members, line.json pid = .object members := by
  obtain ⟨tid, call, usage⟩ := line
  cases call with
  | _ => exact ⟨_, rfl⟩

/-- There is no white space at the end of a line. -/
theorem Line.trim_text {line : Line} (h : line.Plain signed) :
    trimAsciiEnd (line.text signed pid) = line.text signed pid := by
  obtain ⟨members, hmembers⟩ := line.exists_json pid
  rw [line.text_eq h pid, hmembers, trimAsciiEnd_object]

theorem parse_text (hparse : ReadsJson parse) {line : Line} (h : line.Plain signed) :
    parse (line.text signed pid) = if line.Fits then some (line.message pid) else none := by
  rw [line.text_eq h pid, hparse.json, line.ofJson_json]

/-- **A record and its line.** It is written on one line, which is read as its message if the numbers fit, and is an error
otherwise. -/
theorem record_on_a_line (pid : Pid) (hparse : ReadsJson parse) {line : Line} (h : line.Plain signed) :
    newline ∉ line.text signed pid ∧
      parse (trimAsciiEnd (line.text signed pid)) = if line.Fits then some (line.message pid) else none := by
  refine ⟨line.newline_notMem_text h pid, ?_⟩
  rw [line.trim_text h, parse_text hparse h]

/-- A record of a scope that begins, and its line. -/
def sampleLine : Line := ⟨samplePid, .resourceUsage ⟨"a|b", .ts, 1⟩, sampleUsages⟩

/-- The line of the record is read as its message. -/
theorem record_on_a_line_sample :
    parseCompact (trimAsciiEnd (sampleLine.text true samplePid)) = some (sampleLine.message samplePid) := by
  have hstrings : ∀ s ∈ sampleLine.call.strings, s.toList.all (·.toNat < 128) = true := by decide +kernel
  obtain ⟨-, hread⟩ := record_on_a_line samplePid readsJson_parseCompact fun s hs => plain_of_ascii true (hstrings s hs)
  have hfits : sampleLine.Fits := by decide +kernel
  rwa [if_pos hfits] at hread

/-- The messages of lines are those that fit. -/
theorem messagesOf_text (hparse : ReadsJson parse) {lines : List Line} (h : ∀ x ∈ lines, x.Plain signed) :
    messagesOf parse (lines.map (Line.text signed pid)) =
      lines.filterMap fun x => if x.Fits then some (x.message pid) else none := by
  rw [messagesOf, List.filterMap_map]
  refine List.filterMap_congr fun x hx => ?_
  have hplain := h x hx
  show parse (trimAsciiEnd (x.text signed pid)) = _
  rw [x.trim_text hplain, parse_text hparse hplain]

theorem messagesOf_text_of_fits (hparse : ReadsJson parse) {lines : List Line} (h : ∀ x ∈ lines, x.Plain signed)
    (hfits : ∀ x ∈ lines, x.Fits) :
    messagesOf parse (lines.map (Line.text signed pid)) = lines.map (Line.message pid) := by
  rw [messagesOf_text hparse h, ← List.filterMap_eq_map]
  refine List.filterMap_congr fun x hx => ?_
  rw [if_pos (hfits x hx)]
  rfl

/-- A line is not blank. -/
theorem Line.not_blank {line : Line} (h : line.Plain signed) :
    ¬ Blank (line.text signed pid) := by
  obtain ⟨members, hmembers⟩ := line.exists_json pid
  rw [line.text_eq h pid, hmembers]
  intro hblank
  have hbrace : isAsciiWhitespace 0x7b = true := hblank 0x7b (by rw [Json.write, utf8_cons]; exact List.mem_cons_self)
  cases hbrace

/-- A run of lines that are not blank and do not end with white space is read if all lines are. -/
theorem closed_iff_forall (hparse : IsJsonParser parse) {run : List (List UInt8)} (hne : run ≠ [])
    (hrun : ∀ l ∈ run, ¬ Blank l ∧ trimAsciiEnd l = l) : Closed parse run ↔ ∀ l ∈ run, parse l ≠ none := by
  constructor
  · rintro ⟨before, line, blanks, rfl, hbefore, hline, hblanks⟩ l hl
    rcases List.mem_append.1 hl with hl' | hl'
    · exact hbefore l hl'
    · rcases List.mem_cons.1 hl' with rfl | hl'
      · rwa [(hrun l hl).2] at hline
      · exact absurd (hblanks l hl') (hrun l hl).1
  · exact .of_forall hparse hne

/-! ### Files -/

/-- The lines of a text are those of which it has been made. -/
theorem newline_notMem_map_text (pid : Pid) {lines : List Line} (h : ∀ x ∈ lines, x.Plain signed) :
    ∀ l ∈ lines.map (Line.text signed pid), newline ∉ l := by
  intro l hl
  obtain ⟨x, hx, rfl⟩ := List.mem_map.1 hl
  exact x.newline_notMem_text (h x hx) pid

/-- The first two lines of a log. -/
def IsHeaderOf (metadata : Metadata) (l₁ l₂ : Line) : Prop := l₁.call = .start ∧ l₂.call = .metadata metadata

theorem IsHeaderOf.isHeader {metadata : Metadata} {l₁ l₂ : Line} (h : IsHeaderOf metadata l₁ l₂) (hparse : ReadsJson parse)
    (h₁ : l₁.Plain signed) (h₂ : l₂.Plain signed) :
    IsHeader parse (l₁.text signed pid) (l₂.text signed pid) := by
  rw [IsHeader, parse_text hparse h₁, parse_text hparse h₂]
  simp only [Line.Fits, Line.message, h.1, h.2, if_true]
  exact ⟨⟨_, _, rfl⟩, _, rfl⟩

/-- **Which files are read**, of those with a header and then whole lines. -/
theorem messagesRead_text_iff (pid : Pid) (hparse : ReadsJson parse) {metadata : Metadata} {l₁ l₂ : Line}
    (hheader : IsHeaderOf metadata l₁ l₂) {lines : List Line} (h : ∀ x ∈ l₁ :: l₂ :: lines, x.Plain signed) (n : ℕ)
    (order : TaskOrder) (path : String) (ms : List LogMessage) :
    messagesRead (LogData.readFile parse n order path (text signed pid (l₁ :: l₂ :: lines))) = some ms ↔
      (∀ x ∈ lines, x.Fits ∧ (x.text signed pid).length < n) ∧
        (∃ timing, (lines.map (Line.message pid)).getLast? = some (.tEnd timing)) ∧ ms = lines.map (Line.message pid) := by
  have hjson := isJsonParser_of_readsJson hparse
  have hlines : ∀ x ∈ lines, x.Plain signed := fun x hx => h x (List.mem_cons_of_mem _ (List.mem_cons_of_mem _ hx))
  have hnewline := newline_notMem_map_text pid h
  have hheader' : IsHeader parse (l₁.text signed pid) (l₂.text signed pid) := hheader.isHeader hparse
    (h l₁ List.mem_cons_self) (h l₂ (List.mem_cons_of_mem _ List.mem_cons_self))
  by_cases hsize : ∀ l ∈ lines.map (Line.text signed pid), lineSize l ≤ n
  · obtain ⟨runs, hruns⟩ := exists_packed hsize
    have hclosed : (∀ run ∈ runs, Closed parse run) ↔ ∀ x ∈ lines, x.Fits := by
      have hrun : ∀ run ∈ runs, (Closed parse run ↔ ∀ l ∈ run, parse l ≠ none) := by
        intro run hrun
        refine closed_iff_forall hjson (hruns.ne_nil_of_mem hrun) fun l hl => ?_
        have hmem : l ∈ lines.map (Line.text signed pid) := by
          rw [← hruns.flatten]
          exact List.mem_flatten.2 ⟨run, hrun, hl⟩
        obtain ⟨x, hx, rfl⟩ := List.mem_map.1 hmem
        exact ⟨x.not_blank (hlines x hx), x.trim_text (hlines x hx)⟩
      have hsome : ∀ x ∈ lines, (parse (x.text signed pid) ≠ none ↔ x.Fits) := by
        intro x hx
        rw [parse_text hparse (hlines x hx)]
        by_cases hfits : x.Fits
        · simp [hfits]
        · simp [hfits]
      constructor
      · intro hall x hx
        have hmem : x.text signed pid ∈ runs.flatten := by
          rw [hruns.flatten]
          exact List.mem_map_of_mem hx
        obtain ⟨run, hmem, hl⟩ := List.mem_flatten.1 hmem
        exact (hsome x hx).1 ((hrun run hmem).1 (hall run hmem) _ hl)
      · intro hall run hmem
        refine (hrun run hmem).2 fun l hl => ?_
        have hmem' : l ∈ lines.map (Line.text signed pid) := by
          rw [← hruns.flatten]
          exact List.mem_flatten.2 ⟨run, hmem, hl⟩
        obtain ⟨x, hx, rfl⟩ := List.mem_map.1 hmem'
        exact (hsome x hx).2 (hall x hx)
    have hread := messagesRead_iff hjson order path hnewline hheader' hruns ms
    rw [text, List.map_cons, List.map_cons, hread, hclosed, EndsWithTEnd]
    constructor
    · rintro ⟨hfits, hend, rfl⟩
      rw [messagesOf_text_of_fits hparse hlines hfits] at hend ⊢
      exact ⟨fun x hx => ⟨hfits x hx, hsize _ (List.mem_map_of_mem hx)⟩, hend, rfl⟩
    · rintro ⟨hall, hend, rfl⟩
      have hfits : ∀ x ∈ lines, x.Fits := fun x hx => (hall x hx).1
      rw [messagesOf_text_of_fits hparse hlines hfits]
      exact ⟨hfits, hend, rfl⟩
  · -- a line that is longer than a chunk
    refine iff_of_false (fun hread => hsize ?_) fun hall => hsize fun l hl => ?_
    · obtain ⟨messages, hreads, -⟩ := messagesRead_eq_some_iff.1 hread
      obtain ⟨ls, runs, hrest, hls, hruns, -⟩ := ((fileReads_iff hnewline hheader' messages).1 hreads).lines
      have hnewline' : ∀ l ∈ lines.map (Line.text signed pid), newline ∉ l := newline_notMem_map_text pid hlines
      have hsplit := splitOn_unlines hnewline' List.not_mem_nil
      rw [hrest, splitOn_unlines hls List.not_mem_nil] at hsplit
      rw [← (List.append_inj' hsplit rfl).1]
      exact fun l hl => hruns.size_le hl
    · obtain ⟨x, hx, rfl⟩ := List.mem_map.1 hl
      exact (hall.1 x hx).2

theorem call_of_message_eq_start {line : Line} {version : UInt32} {evobenchVersion : String}
    (h : line.message pid = .start version evobenchVersion) : line.call = .start := by
  obtain ⟨tid, call, usage⟩ := line
  cases call with
  | start => rfl
  | resourceUsage record =>
    obtain ⟨probeName, kind, numCalls⟩ := record
    cases kind with
    | _ => cases h
  | _ => cases h

theorem call_of_message_eq_metadata {line : Line} {metadata : Metadata} (h : line.message pid = .metadata metadata) :
    line.call = .metadata metadata := by
  obtain ⟨tid, call, usage⟩ := line
  cases call with
  | metadata m =>
    cases h
    rfl
  | resourceUsage record =>
    obtain ⟨probeName, kind, numCalls⟩ := record
    cases kind with
    | _ => cases h
  | _ => cases h

theorem isTEnd_of_message {line : Line} {timing : Timing} (h : line.message pid = .tEnd timing) :
    line.call.isTEnd = true := by
  obtain ⟨tid, call, usage⟩ := line
  cases call with
  | resourceUsage record =>
    obtain ⟨probeName, kind, numCalls⟩ := record
    cases kind with
    | tEnd => rfl
    | _ => cases h
  | _ => cases h

/-- **A beginning of lines that is read** has a header, and the end of the process as its last line. -/
theorem read_of_prefix (hparse : ReadsJson parse) {lines : List Line} (h : ∀ x ∈ lines, x.Plain signed)
    {file rest : List UInt8} (hfile : file ++ rest = text signed pid lines) {n : ℕ} {order : TaskOrder} {path : String}
    {log : LogData} (hread : LogData.readFile parse n order path file = .ok log) :
    ∃ read left, lines = read ++ left ∧ file = text signed pid read ∧ rest = text signed pid left ∧
      (∃ x ∈ read, x.call.isTEnd = true) ∧ log.messages.flatten = (read.drop 2).map (Line.message pid) := by
  have hmessages : messagesRead (LogData.readFile parse n order path file) = some log.messages.flatten := by
    rw [hread]
    rfl
  obtain ⟨messages, hreads, -⟩ := messagesRead_eq_some_iff.1 hmessages
  obtain ⟨a, b, ls, rfl, hls, hheader⟩ := hreads.exists_lines
  obtain ⟨ls', hmap, rfl⟩ := exists_of_unlines_append hls (newline_notMem_map_text pid h) hfile
  obtain ⟨_, left, rfl, hall, rfl⟩ := List.map_eq_append_iff.1 hmap
  obtain ⟨l₁, _, rfl, rfl, htail⟩ := List.map_eq_cons_iff.1 hall
  obtain ⟨l₂, read, rfl, rfl, rfl⟩ := List.map_eq_cons_iff.1 htail
  have hplain : ∀ x ∈ l₁ :: l₂ :: read, x.Plain signed := fun x hx => h x (List.mem_append_left _ hx)
  have hplain₁ := hplain l₁ List.mem_cons_self
  have hplain₂ := hplain l₂ (List.mem_cons_of_mem _ List.mem_cons_self)
  obtain ⟨⟨version, evobenchVersion, hstart⟩, m, hmetadata⟩ := hheader
  rw [parse_text hparse hplain₁, Option.ite_none_right_eq_some] at hstart
  rw [parse_text hparse hplain₂, Option.ite_none_right_eq_some] at hmetadata
  have hheader' : IsHeaderOf m l₁ l₂ :=
    ⟨call_of_message_eq_start (Option.some.inj hstart.2), call_of_message_eq_metadata (Option.some.inj hmetadata.2)⟩
  have htext : unlines newline (l₁.text signed pid :: l₂.text signed pid :: read.map (Line.text signed pid)) =
      text signed pid (l₁ :: l₂ :: read) := rfl
  rw [htext, messagesRead_text_iff pid hparse hheader' hplain] at hmessages
  obtain ⟨-, ⟨timing, hlast⟩, hms⟩ := hmessages
  refine ⟨l₁ :: l₂ :: read, left, rfl, rfl, rfl, ?_, hms⟩
  rw [List.getLast?_map] at hlast
  obtain ⟨x, hx, hmessage⟩ := Option.map_eq_some_iff.1 hlast
  exact ⟨x, List.mem_cons_of_mem _ (List.mem_cons_of_mem _ (List.mem_of_getLast? hx)), isTEnd_of_message hmessage⟩

end Reading

/-! ### The end of a log -/

section Logs

variable {parse : List UInt8 → Option LogMessage} {ι : Type} [DecidableEq ι] {sites : ι → Site} {signed : Bool} {pid : Pid}
  {metadata : Metadata} {body : Body ι} {s : Process}

/-- The lines in a file have been logged. -/
theorem mem_logged {flushed : List Line} (h : ∀ t, ofId t flushed <+: s.logged t) {x : Line} (hx : x ∈ flushed) :
    x ∈ s.logged x.tid :=
  (h x.tid).subset (List.mem_filter.2 ⟨hx, decide_eq_true rfl⟩)

/-! ### Brackets -/

theorem balanced_of_lives {calls : List Call} (h : Lives sites calls) : Balanced Call.token false calls := by
  induction h with
  | nil => exact .nil
  | snoc body h hnow ih => exact ih.append (balanced_of_life sites hnow)

/-- What has been logged under an id when the process has come to its end. -/
theorem Programs.balanced (h : Programs sites pid metadata body s) {string : List UInt8}
    (hmain : s.threads pid = some ⟨[], string⟩) (hothers : ∀ t, t ≠ pid → s.threads t = none) (t : Pid) :
    Balanced Call.token false (calls (s.logged t)) := by
  by_cases hne : t = pid
  · subst hne
    obtain ⟨r, hr, hlogs⟩ := h.main
    obtain rfl := Option.some.inj (hmain.symm.trans hr)
    exact balanced_of_main sites hlogs
  · have hlived := h.others t hne
    rw [hothers t hne] at hlived
    exact balanced_of_lives hlived

theorem map_fst_threadItems (tid : ThreadId) (n : ℕ) (ms : List DataMessage) :
    ((numbered n ms).filter fun x => x.1.tid = tid).map Prod.fst = ms.filter fun m => m.tid = tid := by
  induction ms generalizing n with
  | nil => rfl
  | cons m ms ih =>
    rw [numbered]
    by_cases hm : m.tid = tid
    · rw [List.filter_cons_of_pos (by simpa using hm), List.filter_cons_of_pos (by simpa using hm), List.map_cons, ih]
    · rw [List.filter_cons_of_neg (by simpa using hm), List.filter_cons_of_neg (by simpa using hm), ih]

/-- The messages of an id are those of its lines. -/
theorem filter_filterMap_data (t : Pid) (lines : List Line) :
    (lines.filterMap (Line.data pid)).filter (fun m => m.tid = t.id) = (ofId t lines).filterMap (Line.data pid) := by
  induction lines with
  | nil => rfl
  | cons x lines ih =>
    by_cases ht : x.tid = t
    · rw [ofId, List.filter_cons_of_pos (by simpa using ht), List.filterMap_cons, List.filterMap_cons]
      cases hdata : x.data pid with
      | none => exact ih
      | some m =>
        have hm : m.tid = t.id := by rw [(x.tid_token_data hdata).1, ht]
        dsimp only
        rw [List.filter_cons_of_pos (by simpa using hm), ih, ofId]
    · rw [ofId, List.filter_cons_of_neg (by simpa using ht), List.filterMap_cons]
      cases hdata : x.data pid with
      | none => exact ih
      | some m =>
        have hm : m.tid ≠ t.id := by
          rw [(x.tid_token_data hdata).1]
          exact fun he => ht (Pid.id_injective he)
        dsimp only
        rw [List.filter_cons_of_neg (by simpa using hm), ih, ofId]

/-- A line without data does not matter. -/
theorem Line.token_of_data_eq_none {line : Line} (h : line.data pid = none) : line.call.token = .skip := by
  obtain ⟨tid, call, usage⟩ := line
  cases call with
  | start => rfl
  | metadata m => rfl
  | resourceUsage record => cases h
  | keyValue key value => cases h

/-- **A log is well bracketed** if what has been logged under each id is. -/
theorem wellBracketed_data {lines : List Line} (h : ∀ t, Balanced Call.token false (calls (ofId t lines))) :
    WellBracketed (lines.filterMap (Line.data pid)) := by
  intro tid
  by_cases htid : ∃ t : Pid, t.id = tid
  · obtain ⟨t, rfl⟩ := htid
    have hlines : Balanced (fun x : Line => x.call.token) false (ofId t lines) := (h t).of_map
    have hdata : Balanced DataMessage.token false ((ofId t lines).filterMap (Line.data pid)) :=
      hlines.filterMap (fun x hx => x.token_of_data_eq_none hx) fun x m hm => (x.tid_token_data hm).2
    rw [← filter_filterMap_data, ← map_fst_threadItems t.id 0] at hdata
    exact hdata.of_map
  · -- no line has such an id
    have hnil : threadItems tid (lines.filterMap (Line.data pid)) = [] := by
      rw [threadItems, List.filter_eq_nil_iff]
      intro x hx he
      obtain ⟨line, -, hdata⟩ := List.mem_filterMap.1 (mem_of_numbered hx)
      exact htid ⟨line.tid, by rw [← (line.tid_token_data hdata).1, of_decide_eq_true he]⟩
    rw [hnil]
    exact .nil

theorem openers_data (pid : Pid) (lines : List Line) :
    openers (lines.filterMap (Line.data pid)) = lines.countP fun x => x.call.token.isOpener := by
  rw [openers, List.countP_filterMap]
  refine List.countP_congr fun x _ => ?_
  cases hdata : x.data pid with
  | none => rw [x.token_of_data_eq_none hdata]; rfl
  | some m => rw [Option.map_some, Option.getD_some, (x.tid_token_data hdata).2]

/-! ### The tree -/

/-- Messages with data are read as these. -/
theorem readMessages_eq {messages : List LogMessage} {ms : List DataMessage}
    (h : messages.map LogMessage.optDataMessage = ms.map some) (r : Reader) : r.readMessages messages = r.read ms := by
  induction messages generalizing ms r with
  | nil =>
    rw [List.map_nil] at h
    rw [List.map_eq_nil_iff.1 h.symm]
    rfl
  | cons message messages ih =>
    cases ms with
    | nil => cases h
    | cons m ms =>
      rw [List.map_cons, List.map_cons] at h
      obtain ⟨hm, hms⟩ := List.cons.inj h
      rw [Reader.readMessages, LogMessage.dataMessage, hm, Reader.read]
      show (r.step m >>= fun r' => r'.readMessages messages) = _
      congr 1
      funext r'
      exact ih hms r'

/-! ### A process that has come to its end -/

/-- A record that has data. -/
def Call.hasData : Call → Bool
  | .resourceUsage _ => true
  | .keyValue _ _ => true
  | _ => false

theorem Call.hasData_of_isInner {call : Call} (h : call.isInner = true) : call.hasData = true := by
  cases call with
  | resourceUsage record => rfl
  | keyValue key value => rfl
  | start => cases h
  | metadata m => cases h

theorem Line.exists_data {line : Line} (h : line.call.hasData = true) (pid : Pid) : ∃ m, line.data pid = some m := by
  obtain ⟨tid, call, usage⟩ := line
  cases call with
  | resourceUsage record => exact ⟨_, rfl⟩
  | keyValue key value => exact ⟨_, rfl⟩
  | start => cases h
  | metadata m => cases h

variable {flushed : List Line} {pending : Pid → List Line} {unwritten : List UInt8}

/-- What the main thread has logged. -/
theorem Programs.calls_main (h : Programs sites pid metadata body s) {string : List UInt8}
    (hmain : s.threads pid = some ⟨[], string⟩) :
    ∃ inner, calls (s.logged pid) = header metadata ++ (inner ++ [tEnd]) ∧ ∀ call ∈ inner, call.isInner = true := by
  obtain ⟨r, hr, hlogs⟩ := h.main
  obtain rfl := Option.some.inj (hmain.symm.trans hr)
  generalize calls (s.logged pid) = cs at hlogs ⊢
  generalize htodo : (Running.mk [] string).todo = todo at hlogs
  cases hlogs.mainPhase sites with
  | constructing h => cases (List.append_eq_nil_iff.1 htodo.symm).2
  | running h => cases (List.append_eq_nil_iff.1 htodo.symm).2
  | exiting hlife h =>
    rcases destructOutput_cases h with ⟨-, rfl⟩ | ⟨rfl, -⟩
    · cases htodo
    · exact ⟨_, rfl, (isLife_of_logs sites hlife).1⟩

/-- **At the end everything is in the file**, from the header to the end of the process. -/
theorem Good.at_end (h : Good sites signed pid metadata body s flushed pending unwritten) {string : List UInt8}
    (hmain : s.threads pid = some ⟨[], string⟩) :
    s.file = text signed pid flushed ∧ (∀ t, ofId t flushed = s.logged t) ∧ (∀ t, t ≠ pid → s.threads t = none) ∧
      ∃ l₁ l₂ lines, flushed = l₁ :: l₂ :: lines ∧ IsHeaderOf metadata l₁ l₂ ∧ (∀ x ∈ lines, x.call.hasData = true) ∧
        ∃ x ∈ lines.getLast?, x.call = tEnd := by
  obtain ⟨inner, hcalls, hinner⟩ := h.programs.calls_main hmain
  -- the end of the process has been flushed
  have hpid : pending pid = [] := by
    have hflushes : (!string.isEmpty) = false := h.programs.flushes pid _ hmain
    exact h.pending_eq_nil hmain (by simpa using hflushes)
  have hlogged := h.flows.logged pid
  rw [hpid, List.append_nil] at hlogged
  obtain ⟨x, hx, hxcall⟩ : ∃ x ∈ ofId pid flushed, x.call = tEnd := by
    have hmem : tEnd ∈ calls (ofId pid flushed) := by
      rw [hlogged, hcalls]
      simp
    exact List.mem_map.1 hmem
  have hxmem : x ∈ flushed := List.mem_of_mem_filter hx
  obtain ⟨hpending, hothers, -⟩ := h.complete hxmem (by rw [hxcall]; rfl)
  have hids : ∀ t, ofId t flushed = s.logged t := by
    intro t
    rw [← h.flows.logged t, hpending t, List.append_nil]
  have hwriting : s.writing = none := by
    rw [Option.eq_none_iff_forall_ne_some]
    rintro ⟨t, rest⟩ hwriting
    obtain ⟨-, todo, htodo⟩ := h.flows.busy t rest hwriting
    by_cases hne : t = pid
    · rw [hne, hmain] at htodo
      cases htodo
    · rw [hothers t hne] at htodo
      cases htodo
  have hfile := h.flows.file
  rw [h.flows.free hwriting, List.append_nil] at hfile
  refine ⟨hfile, hids, hothers, ?_⟩
  -- the header comes first
  obtain ⟨rest, hrest⟩ := h.joined.header _ hmain List.not_mem_nil
  obtain ⟨l₁, _, rfl, h₁, htail₁⟩ := List.map_eq_cons_iff.1 hrest.symm
  obtain ⟨l₂, _, rfl, h₂, htail₂⟩ := List.map_eq_cons_iff.1 htail₁
  obtain ⟨l₃, lines, rfl, h₃, -⟩ := List.map_eq_cons_iff.1 htail₂
  have hother : ∀ x ∈ l₁ :: l₂ :: l₃ :: lines, x.call.hasData = false → x.tid = pid := by
    intro x hx hnone
    by_contra hne
    have hmem : x ∈ ofId x.tid (l₁ :: l₂ :: l₃ :: lines) := List.mem_filter.2 ⟨hx, decide_eq_true rfl⟩
    rw [hids] at hmem
    have hinner := (h.programs.others x.tid hne).isInner x.call (List.mem_map_of_mem hmem)
    rw [Call.hasData_of_isInner hinner] at hnone
    cases hnone
  have hid₁ : l₁.tid = pid := hother l₁ List.mem_cons_self (by rw [h₁]; rfl)
  have hid₂ : l₂.tid = pid := hother l₂ (List.mem_cons_of_mem _ List.mem_cons_self) (by rw [h₂]; rfl)
  refine ⟨l₁, l₂, l₃ :: lines, rfl, ⟨h₁, h₂⟩, fun y hy => ?_, x, ?_, hxcall⟩
  · by_contra hnone
    rw [Bool.not_eq_true] at hnone
    have hid := hother y (List.mem_cons_of_mem _ (List.mem_cons_of_mem _ hy)) hnone
    have hmain' : calls (ofId pid (l₁ :: l₂ :: l₃ :: lines)) = header metadata ++ (inner ++ [tEnd]) := by rw [hids, hcalls]
    rw [ofId, List.filter_cons_of_pos (by simpa using hid₁), List.filter_cons_of_pos (by simpa using hid₂)] at hmain'
    have hrest' : calls (ofId pid (l₃ :: lines)) = .resourceUsage ⟨"-", .tStart, 1⟩ :: (inner ++ [tEnd]) :=
      (List.cons.inj (List.cons.inj hmain').2).2
    have hmem : y.call ∈ calls (ofId pid (l₃ :: lines)) :=
      List.mem_map_of_mem (List.mem_filter.2 ⟨hy, decide_eq_true hid⟩)
    rw [hrest'] at hmem
    rcases List.mem_cons.1 hmem with he | hmem
    · rw [he] at hnone
      cases hnone
    · rcases List.mem_append.1 hmem with hmem | hmem
      · rw [Call.hasData_of_isInner (hinner _ hmem)] at hnone
        cases hnone
      · rw [List.mem_singleton.1 hmem] at hnone
        cases hnone
  · have hlast : ∃ last, (l₁ :: l₂ :: l₃ :: lines).getLast? = some last ∧ x = last := by
      obtain ⟨init, last, he⟩ := List.eq_nil_or_concat (l₁ :: l₂ :: l₃ :: lines) |>.resolve_left (by simp)
      rw [List.concat_eq_append] at he
      have hends := h.joined.ends
      rw [he, List.dropLast_concat] at hends
      rw [he] at hxmem ⊢
      refine ⟨last, List.getLast?_concat, ?_⟩
      rcases List.mem_append.1 hxmem with hmem | hmem
      · have hfalse := hends x hmem
        rw [hxcall] at hfalse
        cases hfalse
      · exact List.mem_singleton.1 hmem
    obtain ⟨last, hlast, rfl⟩ := hlast
    rwa [List.getLast?_cons_cons, List.getLast?_cons_cons] at hlast

theorem map_optDataMessage {lines : List Line} (h : ∀ x ∈ lines, x.call.hasData = true) :
    (lines.map (Line.message pid)).map LogMessage.optDataMessage = (lines.filterMap (Line.data pid)).map some := by
  induction lines with
  | nil => rfl
  | cons x lines ih =>
    obtain ⟨m, hm⟩ := x.exists_data (h x List.mem_cons_self) pid
    rw [List.map_cons, List.map_cons, x.optDataMessage_message, hm, List.filterMap_cons, hm, List.map_cons,
      ih fun y hy => h y (List.mem_cons_of_mem _ hy)]

/-- **The tree of lines with data**, if they are well bracketed. -/
theorem fromLogData_spec {lines : List Line} (hdata : ∀ x ∈ lines, x.call.hasData = true)
    (hwell : WellBracketed (lines.filterMap (Line.data pid))) {log : LogData}
    (hlog : log.messages.flatten = lines.map (Line.message pid)) :
    ((∃ tree, LogDataTree.fromLogData log = .ok tree) ↔ (lines.countP fun x => x.call.token.isOpener) < 2 ^ 32) ∧
      ∀ tree, LogDataTree.fromLogData log = .ok tree →
        ∃ lifetime, IsCallForest (lines.filterMap (Line.data pid)) lifetime tree := by
  have hread : LogDataTree.fromLogData log =
      Reader.new.read (lines.filterMap (Line.data pid)) >>= fun r => .ok r.tree := by
    rw [LogDataTree.fromLogData, hlog, readMessages_eq (map_optDataMessage hdata)]
    rfl
  have hspec := read_new_spec (lines.filterMap (Line.data pid))
  have hok : ∀ tree, LogDataTree.fromLogData log = .ok tree →
      ∃ lifetime r, Reads (lines.filterMap (Line.data pid)) lifetime r ∧ r.tree = tree := by
    intro tree htree
    rw [hread] at htree
    obtain ⟨r, hr, he⟩ := Outcome.bind_eq_ok.1 htree
    rw [hr] at hspec
    cases hspec with
    | ok hfits hreads => exact ⟨_, r, hreads, Outcome.ok.inj he⟩
  refine ⟨⟨?_, fun hroom => ?_⟩, fun tree htree => ?_⟩
  · rintro ⟨tree, htree⟩
    obtain ⟨lifetime, r, hreads, -⟩ := hok tree htree
    rw [← openers_data pid]
    exact hreads.fits
  · rw [← openers_data pid] at hroom
    obtain ⟨r, hr⟩ := hwell.read hroom
    exact ⟨r.tree, by rw [hread, hr]; rfl⟩
  · obtain ⟨lifetime, r, hreads, rfl⟩ := hok tree htree
    exact ⟨lifetime, hreads.isCallForest hwell⟩

/-! ### Main results -/

/-- **A log that is accepted is complete.** The process has come to its end, and nothing that has been logged by any thread is
missing; a process that is killed, or that fails to write, leaves no such log. -/
theorem accepted_is_complete (hparse : ReadsJson parse) (h : Reaches sites signed pid metadata body s)
    (hplain : ∀ t, ∀ x ∈ s.logged t, x.Plain signed) (n : ℕ) (order : TaskOrder) (path : String) (log : LogData)
    (hread : LogData.readFile parse n order path s.file = .ok log) :
    (s.isEnabled = true ∧ (∀ t, t ≠ pid → s.threads t = none) ∧
        ∃ r, s.threads pid = some r ∧ (r.todo = [.flush] ∨ r.todo = [])) ∧
      ∃ lines, s.file = text signed pid lines ∧ (∀ t, ofId t lines = s.logged t) ∧
        log.messages.flatten = (lines.drop 2).map (Line.message pid) := by
  rcases inv_of_reaches h with ⟨henabled, flushed, pending, unwritten, hgood⟩ | ⟨-, flushed, unwritten, hfailed⟩
  · have hlogged : ∀ t, ofId t flushed <+: s.logged t := by
      intro t
      rw [← hgood.flows.logged t]
      exact List.prefix_append _ _
    obtain ⟨lines, left, rfl, hfile, -, ⟨x, hx, hend⟩, hms⟩ := read_of_prefix hparse
      (fun x hx => hplain _ x (mem_logged hlogged hx)) hgood.flows.file hread
    obtain ⟨hpending, hothers, hmain⟩ := hgood.complete (List.mem_append_left left hx) hend
    have hleft : left = [] := by
      by_contra hne
      have hends := hgood.joined.ends x (by rw [List.dropLast_append_of_ne_nil hne]; exact List.mem_append_left _ hx)
      rw [hends] at hend
      cases hend
    refine ⟨⟨henabled, hothers, hmain⟩, lines, hfile, fun t => ?_, hms⟩
    rw [← hgood.flows.logged t, hpending t, hleft, List.append_nil, List.append_nil]
  · obtain ⟨lines, left, rfl, -, rfl, ⟨x, hx, hend⟩, -⟩ := read_of_prefix hparse
      (fun x hx => hplain _ x (mem_logged hfailed.logged hx)) hfailed.file hread
    have hne : left ≠ [] := by
      rintro rfl
      exact hfailed.unwritten rfl
    have hends := hfailed.ends x (by rw [List.dropLast_append_of_ne_nil hne]; exact List.mem_append_left _ hx)
    rw [hends] at hend
    cases hend

theorem plain_sampleLines : ∀ x ∈ sampleLines, x.Plain true := by
  have hall : ∀ x ∈ sampleLines, ∀ s ∈ x.call.strings, s.toList.all (·.toNat < 128) = true := by decide +kernel
  exact fun x hx s hs => plain_of_ascii true (hall x hx s hs)

theorem plain_ended (t : Pid) : ∀ x ∈ ended.logged t, x.Plain true :=
  fun x hx => plain_sampleLines x (List.mem_filter.1 hx).1

theorem read_sampleLines : ∃ log, LogData.readFile parseCompact LogData.chunkSizeBytes .spawned "bench.log"
    (text true samplePid sampleLines) = .ok log := by
  have hfits : ∀ x ∈ sampleLines.drop 2, x.Fits ∧ (x.text true samplePid).length < LogData.chunkSizeBytes := by
    decide +kernel
  have hread := (messagesRead_text_iff samplePid readsJson_parseCompact ⟨rfl, rfl⟩ plain_sampleLines LogData.chunkSizeBytes
    .spawned "bench.log" _).2 ⟨hfits, ⟨_, rfl⟩, rfl⟩
  change messagesRead (LogData.readFile parseCompact LogData.chunkSizeBytes .spawned "bench.log"
    (text true samplePid sampleLines)) = _ at hread
  cases hlog : LogData.readFile parseCompact LogData.chunkSizeBytes .spawned "bench.log" (text true samplePid sampleLines) with
  | ok log => exact ⟨log, rfl⟩
  | err e =>
    rw [hlog] at hread
    cases hread
  | panic msg =>
    rw [hlog] at hread
    cases hread

/-- The log that the program leaves is complete, for both threads. -/
theorem accepted_is_complete_sample :
    ∃ lines, text true samplePid sampleLines = text true samplePid lines ∧
      ofId samplePid lines = headerLines ++ mainLines ++ linesOf samplePid [tEnd] ∧ ofId otherTid lines = otherLines := by
  obtain ⟨log, hlog⟩ := read_sampleLines
  obtain ⟨-, lines, hfile, hids, -⟩ := accepted_is_complete readsJson_parseCompact reaches_sample plain_ended
    LogData.chunkSizeBytes .spawned "bench.log" log hlog
  have hmain : ended.logged samplePid = headerLines ++ mainLines ++ linesOf samplePid [tEnd] := by decide +kernel
  have hother : ended.logged otherTid = otherLines := by decide +kernel
  exact ⟨lines, hfile, (hids samplePid).trans hmain, (hids otherTid).trans hother⟩

/-- **The file of a process that has come to its end is read**, and gives the call forest of what has been logged, exactly if
every record after the header fits into a chunk, all times fit, and there are not too many spans. -/
theorem log_is_read_iff (hparse : ReadsJson parse) (h : Reaches sites signed pid metadata body s) (henabled : s.isEnabled = true)
    {string : List UInt8} (hmain : s.threads pid = some ⟨[], string⟩) (hplain : ∀ t, ∀ x ∈ s.logged t, x.Plain signed) (n : ℕ)
    (order : TaskOrder) (path : String) :
    ∃ l₁ l₂ lines, s.file = text signed pid (l₁ :: l₂ :: lines) ∧ (∀ t, ofId t (l₁ :: l₂ :: lines) = s.logged t) ∧
      ((∃ log tree, LogData.readFile parse n order path s.file = .ok log ∧ LogDataTree.fromLogData log = .ok tree) ↔
        (∀ x ∈ lines, x.Fits ∧ (x.text signed pid).length < n) ∧
          (lines.countP fun x => x.call.token.isOpener) < 2 ^ 32) ∧
      ∀ log tree, LogData.readFile parse n order path s.file = .ok log → LogDataTree.fromLogData log = .ok tree →
        log.messages.flatten = lines.map (Line.message pid) ∧
          ∃ lifetime, IsCallForest (lines.filterMap (Line.data pid)) lifetime tree := by
  obtain ⟨-, flushed, pending, unwritten, hgood⟩ | ⟨hdisabled, -⟩ := inv_of_reaches h
  case inr =>
    rw [henabled] at hdisabled
    cases hdisabled
  obtain ⟨hfile, hids, hothers, l₁, l₂, lines, rfl, hheader, hdata, x, hx, hxcall⟩ := hgood.at_end hmain
  have hplain' : ∀ y ∈ l₁ :: l₂ :: lines, y.Plain signed := by
    intro y hy
    refine hplain y.tid y ?_
    rw [← hids]
    exact List.mem_filter.2 ⟨hy, decide_eq_true rfl⟩
  have hwell : WellBracketed (lines.filterMap (Line.data pid)) := by
    have hall : WellBracketed ((l₁ :: l₂ :: lines).filterMap (Line.data pid)) := by
      refine wellBracketed_data fun t => ?_
      rw [hids]
      exact hgood.programs.balanced hmain hothers t
    have hnone₁ : l₁.data pid = none := by rw [Line.data, hheader.1]
    have hnone₂ : l₂.data pid = none := by rw [Line.data, hheader.2]
    rwa [List.filterMap_cons_none hnone₁, List.filterMap_cons_none hnone₂] at hall
  have hend : ∃ timing, (lines.map (Line.message pid)).getLast? = some (.tEnd timing) := by
    rw [List.getLast?_map, show lines.getLast? = some x from hx, Option.map_some, Line.message, hxcall]
    exact ⟨_, rfl⟩
  have hread := messagesRead_text_iff pid hparse hheader hplain' n order path
  rw [← hfile] at hread
  have hmessages : ∀ log, LogData.readFile parse n order path s.file = .ok log →
      (∀ y ∈ lines, y.Fits ∧ (y.text signed pid).length < n) ∧ log.messages.flatten = lines.map (Line.message pid) := by
    intro log hlog
    have hsome := hread log.messages.flatten
    rw [hlog] at hsome
    obtain ⟨hall, -, hms⟩ := hsome.1 rfl
    exact ⟨hall, hms⟩
  refine ⟨l₁, l₂, lines, hfile, hids, ⟨?_, ?_⟩, fun log tree hlog htree => ?_⟩
  · rintro ⟨log, tree, hlog, htree⟩
    obtain ⟨hall, hms⟩ := hmessages log hlog
    exact ⟨hall, (fromLogData_spec hdata hwell hms).1.1 ⟨tree, htree⟩⟩
  · rintro ⟨hall, hroom⟩
    have hsome := (hread (lines.map (Line.message pid))).2 ⟨hall, hend, rfl⟩
    cases hlog : LogData.readFile parse n order path s.file with
    | ok log =>
      obtain ⟨tree, htree⟩ := (fromLogData_spec hdata hwell (hmessages log hlog).2).1.2 hroom
      exact ⟨log, tree, rfl, htree⟩
    | err e =>
      rw [hlog] at hsome
      cases hsome
    | panic msg =>
      rw [hlog] at hsome
      cases hsome
  · obtain ⟨-, hms⟩ := hmessages log hlog
    exact ⟨hms, (fromLogData_spec hdata hwell hms).2 tree htree⟩

/-- What has been logged under each id is all that has been logged. -/
theorem perm_of_ofId {lines lines' : List Line} (h : ∀ t, ofId t lines = ofId t lines') : lines.Perm lines' := by
  refine List.perm_iff_count.2 fun x => ?_
  have hcount (l : List Line) : (ofId x.tid l).count x = l.count x := List.count_filter (decide_eq_true rfl)
  rw [← hcount lines, ← hcount lines', h]

/-- The program's log is read. -/
theorem log_is_read_iff_sample :
    ∃ log tree, LogData.readFile parseCompact LogData.chunkSizeBytes .spawned "bench.log" (text true samplePid sampleLines) =
        .ok log ∧ LogDataTree.fromLogData log = .ok tree := by
  obtain ⟨l₁, l₂, lines, hfile, hids, hread, -⟩ := log_is_read_iff readsJson_parseCompact reaches_sample rfl rfl
    plain_ended LogData.chunkSizeBytes .spawned "bench.log"
  have hperm : (l₁ :: l₂ :: lines).Perm sampleLines := perm_of_ofId hids
  have hfits : ∀ x ∈ sampleLines, x.Fits ∧ (x.text true samplePid).length < LogData.chunkSizeBytes := by decide +kernel
  have hroom : (sampleLines.countP fun x => x.call.token.isOpener) < 2 ^ 32 := by decide +kernel
  have hsub : lines.Sublist (l₁ :: l₂ :: lines) := (List.sublist_cons_self _ _).trans (List.sublist_cons_self _ _)
  refine hread.2 ⟨fun x hx => hfits x (hperm.subset (hsub.subset hx)), ?_⟩
  rw [← hperm.countP_eq] at hroom
  exact hsub.countP_le.trans_lt hroom

end Logs

end Evobench.Probes

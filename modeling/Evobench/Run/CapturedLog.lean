import Evobench.IoUtils.OutputCaptureLog
import Evobench.Run.CommandLogFile

/-!
# Reading back captured output

`run_job` writes the parameters of a job and an empty line to a log file, and captures the output of the benchmarking command
after it, with timestamps and source indicators. The same file is read as a command log file later on.

`captured_log_is_read`: the head that is split off is the text of the parameters, and the lines with timestamps that come
after it are the lines of the output; without the timestamps and the indicators they are the lines that the command has
written to each of its two outputs.
-/

namespace Evobench.Run

open Library IoUtils Utillib KeyValFs

/-! ### Lines as texts -/

/-- A line without the line break. -/
def chomp (line : List UInt8) : List UInt8 := if line.getLast? = some newline then line.dropLast else line

/-- What a line with a source indicator says, if it is the one of this output. -/
def ofIndicator (src : Source) : List Char → Option (List Char)
  | c :: '\t' :: text => if [c] = src.indicator then some text else none
  | _ => none

theorem utf8_lineBreak : utf8 ['\n'] = [newline] := rfl

theorem newline_mem_utf8 {text : List Char} (h : '\n' ∈ text) : newline ∈ utf8 text :=
  List.mem_flatMap.2 ⟨'\n', h, by decide⟩

/-- A text whose bytes end with a line break. -/
theorem exists_of_utf8_eq_line {cs : List Char} {l : List UInt8} (h : utf8 cs = l ++ [newline]) :
    ∃ text, cs = text ++ ['\n'] ∧ utf8 text = l := by
  obtain ⟨text, c, rfl⟩ : ∃ text c, cs = text ++ [c] := by
    rcases List.eq_nil_or_concat cs with rfl | ⟨text, c, hcs⟩
    · rw [utf8_nil] at h
      cases (List.append_eq_nil_iff.1 h.symm).2
    · exact ⟨text, c, by rw [hcs, List.concat_eq_append]⟩
  rw [utf8_append, utf8_cons, utf8_nil, List.append_nil] at h
  by_cases hlt : c.toNat < 128
  · rw [utf8EncodeChar_of_lt hlt] at h
    obtain ⟨htext, hc⟩ := List.append_inj' h rfl
    have hnat : c.toNat = 10 := by
      have hbyte := congrArg UInt8.toNat (List.singleton_inj.1 hc)
      rwa [UInt8.toNat_ofNat', Nat.mod_eq_of_lt (by omega)] at hbyte
    have hchar : c = '\n' := Char.toNat_inj.1 hnat
    exact ⟨text, by rw [hchar], htext⟩
  · -- the last byte would not be ASCII
    have hlast : newline ∈ String.utf8EncodeChar c := by
      have hne : String.utf8EncodeChar c ≠ [] := by
        have := one_lt_length_utf8EncodeChar (c := c) (by omega)
        rintro hnil
        rw [hnil] at this
        cases this
      have hget := congrArg List.getLast? h
      rw [List.getLast?_append_of_ne_nil _ hne, List.getLast?_concat] at hget
      exact List.mem_of_getLast? hget
    have hle := le_of_mem_utf8EncodeChar (by omega) hlast
    exact absurd hle (by decide)

/-- What is written for a line begins with the time and the indicator. -/
theorem line_eq {c : Captured} (hne : c.inputLine ≠ []) :
    c.line ⟨true, true⟩ = utf8 (c.timestamp ++ '\t' :: (c.source.indicator ++ ['\t'])) ++
      (if c.inputLine.getLast? = some newline then c.inputLine else c.inputLine ++ [newline]) := by
  have hbegin : utf8 c.timestamp ++ utf8 ['\t'] ++ (utf8 c.source.indicator ++ utf8 ['\t'] ++ c.inputLine) =
      utf8 (c.timestamp ++ '\t' :: (c.source.indicator ++ ['\t'])) ++ c.inputLine := by
    simp only [utf8_append, utf8_cons, utf8_nil, List.append_nil, List.append_assoc]
  show (let line := utf8 c.timestamp ++ utf8 ['\t'] ++ (utf8 c.source.indicator ++ utf8 ['\t'] ++ c.inputLine)
    if line.getLast? = some newline then line else line ++ [newline]) = _
  rw [hbegin]
  dsimp only
  rw [List.getLast?_append_of_ne_nil _ hne]
  split_ifs
  · rfl
  · rw [List.append_assoc]

/-- The text of a line that has been read. -/
def textOf (c : Captured) : List Char := (decodeUtf8 (chomp c.inputLine)).getD []

/-- The line that is written for it, as a text. -/
def capturedLine (c : Captured) : List Char := c.timestamp ++ '\t' :: (c.source.indicator ++ '\t' :: textOf c)

/-- **A line that has been read** is a text on one line, and so is what is written for it. -/
theorem capturedLine_spec {now : List Char → Prop} {src : Source} {c : Captured} (h : c.Valid now src)
    (hline : IsLine c.inputLine ∨ newline ∉ c.inputLine ∧ c.inputLine ≠ []) :
    '\n' ∉ textOf c ∧ utf8 (textOf c) = chomp c.inputLine ∧ c.line ⟨true, true⟩ = utf8 (capturedLine c ++ ['\n']) := by
  obtain ⟨cs, hcs⟩ := Option.isSome_iff_exists.1 h.utf8
  have hbytes := utf8_of_decodeUtf8 hcs
  have hspec : ∀ text, utf8 text = chomp c.inputLine → '\n' ∉ text →
      c.line ⟨true, true⟩ = utf8 (c.timestamp ++ '\t' :: (c.source.indicator ++ ['\t'])) ++ (utf8 text ++ [newline]) →
      '\n' ∉ textOf c ∧ utf8 (textOf c) = chomp c.inputLine ∧ c.line ⟨true, true⟩ = utf8 (capturedLine c ++ ['\n']) := by
    intro text htext hnewline hwritten
    have heq : textOf c = text := by rw [textOf, ← htext, decodeUtf8_utf8, Option.getD_some]
    rw [capturedLine, heq]
    refine ⟨hnewline, htext, ?_⟩
    rw [hwritten, ← utf8_lineBreak, ← utf8_append, ← utf8_append]
    simp only [List.append_assoc, List.cons_append, List.nil_append]
  rcases hline with ⟨l, hl, hinput⟩ | ⟨hnewline, hne⟩
  · rw [hinput] at hbytes
    obtain ⟨text, -, htext⟩ := exists_of_utf8_eq_line hbytes
    have hlast : c.inputLine.getLast? = some newline := by rw [hinput, List.getLast?_concat]
    have hne : c.inputLine ≠ [] := by
      rw [hinput]
      exact List.concat_ne_nil _ _
    refine hspec text ?_ (fun hmem => hl (htext ▸ newline_mem_utf8 hmem)) ?_
    · rw [chomp, if_pos hlast, hinput, List.dropLast_concat, htext]
    · rw [line_eq hne, if_pos hlast, hinput, htext]
  · have hlast : c.inputLine.getLast? ≠ some newline := fun he => hnewline (List.mem_of_getLast? he)
    refine hspec cs ?_ (fun hmem => hnewline (hbytes ▸ newline_mem_utf8 hmem)) ?_
    · rw [chomp, if_neg hlast, hbytes]
    · rw [line_eq hne, if_neg hlast, hbytes]

theorem eq_nil_of_readLines {bytes : List UInt8} (h : readLines bytes = []) : bytes = [] := by
  cases bytes with
  | nil => rfl
  | cons b bytes =>
    rw [readLines] at h
    split_ifs at h
    split at h
    · cases h
    · cases h

/-! ### The file -/

section File

variable {τ : Type} {chrono : Rfc3339Parser τ}

theorem timestampOf_capturedLine {c : Captured} {timestamp : τ} (hparse : chrono.parseFromRfc3339 c.timestamp = some timestamp)
    (htab : '\t' ∉ c.timestamp) :
    timestampOf chrono (capturedLine c) = some (timestamp, c.source.indicator ++ '\t' :: textOf c) := by
  rw [timestampOf, capturedLine, splitOnce_append htab]
  simp [hparse]

theorem ofIndicator_eq (src : Source) (c : Captured) :
    ofIndicator src (c.source.indicator ++ '\t' :: textOf c) = if c.source = src then some (textOf c) else none := by
  cases hsource : c.source with
  | stdout =>
    cases src with
    | stdout => rfl
    | stderr => rfl
  | stderr =>
    cases src with
    | stdout => rfl
    | stderr => rfl

/-- The lines of an output are got back from the lines with timestamps. -/
theorem filterMap_ofIndicator {cs : List Captured}
    (h : ∀ c ∈ cs, (chrono.parseFromRfc3339 c.timestamp).isSome = true ∧ '\t' ∉ c.timestamp) (src : Source) :
    ((cs.map capturedLine).filterMap (timestampOf chrono)).filterMap (fun x => ofIndicator src x.2) =
      (cs.filter (·.source = src)).map textOf := by
  induction cs with
  | nil => rfl
  | cons c cs ih =>
    obtain ⟨hc, hcs⟩ := List.forall_mem_cons.1 h
    obtain ⟨timestamp, hparse⟩ := Option.isSome_iff_exists.1 hc.1
    rw [List.map_cons, List.filterMap_cons_some (timestampOf_capturedLine hparse hc.2), List.filterMap_cons,
      ofIndicator_eq, ih hcs]
    by_cases hsource : c.source = src
    · rw [if_pos hsource, List.filter_cons_of_pos (by simpa using hsource), List.map_cons]
    · rw [if_neg hsource, List.filter_cons_of_neg (by simpa using hsource)]

/-- A text is determined by its lines. -/
theorem eq_unlines_of_linesOf {text : List Char} {ls : List (List Char)} (h : linesOf text = ls ++ [[]]) :
    text = unlines '\n' ls := by
  obtain ⟨ls', tail, rfl, hls', htail⟩ := exists_unlines '\n' text
  rw [linesOf, splitOn_unlines hls' htail] at h
  obtain ⟨rfl, htail⟩ := List.append_inj' h rfl
  rw [List.singleton_inj.1 htail, List.append_nil]

/-- The lines of a file with a head and lines after it. -/
theorem linesOf_file (params : List Char) {ls : List (List Char)} (hls : ∀ l ∈ ls, '\n' ∉ l) :
    linesOf (params ++ '\n' :: unlines '\n' ls) = linesOf params ++ (ls ++ [[]]) := by
  obtain ⟨ls', tail, rfl, hls', htail⟩ := exists_unlines '\n' params
  have hfile : unlines '\n' ls' ++ tail ++ '\n' :: unlines '\n' ls = unlines '\n' (ls' ++ tail :: ls) ++ [] := by
    rw [unlines_append, unlines_cons, List.append_nil, List.append_assoc]
  have hall : ∀ l ∈ ls' ++ tail :: ls, '\n' ∉ l := by
    simp only [List.forall_mem_append, List.forall_mem_cons]
    exact ⟨hls', htail, hls⟩
  rw [hfile, linesOf, splitOn_unlines hall List.not_mem_nil, linesOf, splitOn_unlines hls' htail]
  simp

theorem newline_notMem_capturedLine {c : Captured} (h : (chrono.parseFromRfc3339 c.timestamp).isSome = true)
    (htext : '\n' ∉ textOf c) : '\n' ∉ capturedLine c := by
  obtain ⟨timestamp, hparse⟩ := Option.isSome_iff_exists.1 h
  have hnewline := chrono.noNewline_of_parse _ _ hparse
  have hindicator : '\n' ∉ c.source.indicator := by
    cases c.source with
    | stdout => decide
    | stderr => decide
  simp [capturedLine, hnewline, hindicator, htext]

/-- A line that comes after the head has a timestamp. -/
theorem timestampOf_ne_none {cs : List Captured}
    (h : ∀ c ∈ cs, (chrono.parseFromRfc3339 c.timestamp).isSome = true ∧ '\t' ∉ c.timestamp) :
    ∀ l ∈ cs.map capturedLine, timestampOf chrono l ≠ none := by
  intro l hl
  obtain ⟨c, hc, rfl⟩ := List.mem_map.1 hl
  obtain ⟨timestamp, hparse⟩ := Option.isSome_iff_exists.1 (h c hc).1
  rw [timestampOf_capturedLine hparse (h c hc).2]
  exact Option.some_ne_none _

/-- Head and rest of a file with captured lines. -/
theorem splitOff_captured {params : List Char} (hparams : ∀ l ∈ linesOf params, timestampOf chrono l = none)
    {cs : List Captured} (hne : cs ≠ [])
    (h : ∀ c ∈ cs, (chrono.parseFromRfc3339 c.timestamp).isSome = true ∧ '\t' ∉ c.timestamp)
    (hlines : ∀ l ∈ cs.map capturedLine, '\n' ∉ l) :
    splitOffLogFileParams chrono (params ++ '\n' :: unlines '\n' (cs.map capturedLine)) =
      some (params, unlines '\n' (cs.map capturedLine), (linesOf params).length + 1) := by
  obtain ⟨c, cs, rfl⟩ := List.exists_cons_of_ne_nil hne
  have hfirst : timestampOf chrono (capturedLine c) ≠ none := timestampOf_ne_none h _ List.mem_cons_self
  have hpre : linesOf params ≠ [] := List.splitOn_ne_nil _ _
  obtain ⟨-, hsplit⟩ := splitOffLogFileParams_eq (linesOf_file params hlines) hparams hfirst
  obtain ⟨head, rest, hsome, hfile, hrest⟩ := hsplit hpre
  have hrest' : rest = unlines '\n' ((c :: cs).map capturedLine) := eq_unlines_of_linesOf hrest
  rw [hrest'] at hfile hsome
  obtain ⟨rfl, -⟩ := List.append_inj' hfile rfl
  exact hsome

/-- **Captured output is read back.** When the output of a command has been captured to a file that begins with the
parameters of the job, the head that is split off is their text, unless there is no output; and the lines with timestamps in
the rest are the lines that the command has written to each of its outputs, in their order. -/
theorem captured_log_is_read {now : List Char → Prop} {others : ℕ} {cmd : List String} {files : ℕ → List UInt8} {s : Capture}
    {status : ExitStatus} (h : Capture.Reaches ⟨true, true⟩ others now cmd files s)
    (hreturned : s.caller = .returned (.ok status))
    (hnow : ∀ t, now t → (chrono.parseFromRfc3339 t).isSome = true ∧ '\t' ∉ t) {params : List Char}
    (hparams : ∀ l ∈ linesOf params, timestampOf chrono l = none) (hfile : files 0 = utf8 (params ++ ['\n'])) :
    ∃ contents rest lineno, utf8 contents = s.files 0 ∧ logContentsRest chrono contents = (rest, lineno) ∧
      ((∀ src, (s.streams src).output = []) → splitOffLogFileParams chrono contents = none) ∧
      ((∃ src, (s.streams src).output ≠ []) →
        splitOffLogFileParams chrono contents = some (params, rest, lineno) ∧ lineno = (linesOf params).length + 1) ∧
      ∀ src, (((linesOf rest).filterMap (timestampOf chrono)).filterMap fun x => ofIndicator src x.2).map utf8 =
        (readLines (s.streams src).output).map chomp := by
  obtain ⟨pieces, hinv⟩ := Capture.inv_of_reaches h
  obtain ⟨-, hwhole, hread⟩ := hinv.of_returned hreturned
  obtain ⟨cs, hcs⟩ : ∃ cs, cs = pieces.map (·.captured) := ⟨_, rfl⟩
  have hspec : ∀ c ∈ cs, ((chrono.parseFromRfc3339 c.timestamp).isSome = true ∧ '\t' ∉ c.timestamp) ∧
      '\n' ∉ textOf c ∧ utf8 (textOf c) = chomp c.inputLine ∧ c.line ⟨true, true⟩ = utf8 (capturedLine c ++ ['\n']) := by
    rw [hcs, List.forall_mem_map]
    intro p hp
    have hvalid := hinv.valid p hp
    exact ⟨hnow _ hvalid.timestamp, capturedLine_spec hvalid (hinv.isLine hp)⟩
  have htimes := fun c hc => (hspec c hc).1
  have hlines : ∀ l ∈ cs.map capturedLine, '\n' ∉ l := by
    intro l hl
    obtain ⟨c, hc, rfl⟩ := List.mem_map.1 hl
    exact newline_notMem_capturedLine (htimes c hc).1 (hspec c hc).2.1
  have houtput : ∀ src, (cs.filter (·.source = src)).map Captured.inputLine = readLines (s.streams src).output := by
    intro src
    rw [← hread src, inputLines, ofSource, hcs, List.filter_map, List.map_map]
    rfl
  have hcontents : utf8 (params ++ '\n' :: unlines '\n' (cs.map capturedLine)) = s.files 0 := by
    have hwritten : pieces.flatMap (·.written 0) = utf8 (unlines '\n' (cs.map capturedLine)) := by
      rw [unlines, utf8_flatMap, List.flatMap_map, hcs, List.flatMap_map]
      refine List.flatMap_congr fun p hp => ?_
      rw [hwhole p hp 0 (Nat.zero_le _)]
      exact (hspec p.captured (hcs ▸ List.mem_map_of_mem hp)).2.2.2
    rw [hinv.files 0, hfile, hwritten, ← utf8_append, List.append_assoc, List.singleton_append]
  have hback : ∀ src, (((cs.map capturedLine).filterMap (timestampOf chrono)).filterMap fun x => ofIndicator src x.2).map utf8 =
      (readLines (s.streams src).output).map chomp := by
    intro src
    rw [filterMap_ofIndicator htimes, ← houtput src, List.map_map, List.map_map]
    exact List.map_congr_left fun c hc => (hspec c (List.mem_of_mem_filter hc)).2.2.1
  have hsilent : (∀ src, (s.streams src).output = []) ↔ cs = [] := by
    constructor
    · intro hall
      refine List.eq_nil_iff_forall_not_mem.2 fun c hc => ?_
      have hnil := houtput c.source
      rw [hall, show readLines [] = [] from rfl, List.map_eq_nil_iff] at hnil
      have hmem : c ∈ cs.filter (·.source = c.source) := List.mem_filter.2 ⟨hc, decide_eq_true rfl⟩
      rw [hnil] at hmem
      cases hmem
    · rintro rfl src
      exact eq_nil_of_readLines (houtput src).symm
  have hlast : timestampOf chrono [] = none := rfl
  by_cases hnil : cs = []
  · have hall := hsilent.2 hnil
    rw [hnil, List.map_nil] at hcontents
    have hno : ∀ l ∈ linesOf (params ++ '\n' :: unlines '\n' []), timestampOf chrono l = none := by
      rw [linesOf_file params (List.forall_mem_nil _)]
      simp only [List.forall_mem_append, List.nil_append, List.forall_mem_singleton]
      exact ⟨hparams, hlast⟩
    have hnone := splitOffLogFileParams_eq_none hno
    refine ⟨_, _, 1, hcontents, by rw [logContentsRest, hnone], fun _ => hnone, ?_, fun src => ?_⟩
    · rintro ⟨src, hne⟩
      exact absurd (hall src) hne
    · rw [hall src, List.filterMap_eq_nil_iff.2 hno]
      rfl
  · have hsome := splitOff_captured hparams hnil htimes hlines
    refine ⟨_, _, _, hcontents, by rw [logContentsRest, hsome], fun hall => absurd (hsilent.1 hall) hnil,
      fun _ => ⟨hsome, rfl⟩, fun src => ?_⟩
    rw [← hback src, linesOf, ← List.append_nil (unlines _ _), splitOn_unlines hlines List.not_mem_nil, List.filterMap_append,
      List.filterMap_cons_none hlast, List.filterMap_nil, List.append_nil]

end File

/-- A time. -/
def sampleNow : List Char := "2026-02-02T11:26:48Z".toList

/-- It is parsed. -/
def sampleClock : Rfc3339Parser ℕ where
  parseFromRfc3339 t := if t = sampleNow then some 41208 else none
  noNewline_of_parse t timestamp h := by
    rw [Option.ite_none_right_eq_some] at h
    rw [h.1]
    decide +kernel

/-- What a command prints to its two outputs is read back from its log. -/
theorem captured_log_is_read_sample :
    ∃ contents rest, splitOffLogFileParams sampleClock contents = some ("target_name: a\n".toList, rest, 3) ∧
      ((((linesOf rest).filterMap (timestampOf sampleClock)).filterMap fun x => ofIndicator .stdout x.2).map utf8) =
        [utf8 ['h', 'i'], utf8 ['y', 'o']] ∧
      ((((linesOf rest).filterMap (timestampOf sampleClock)).filterMap fun x => ofIndicator .stderr x.2).map utf8) =
        [utf8 ['o', 'h']] := by
  obtain ⟨s, hreaches, hcaller, hstdout, hstderr⟩ :=
    @Capture.reaches_sample ⟨true, true⟩ (· = sampleNow) sampleNow rfl fun _ => utf8 ("target_name: a\n".toList ++ ['\n'])
  have hnow : ∀ t, t = sampleNow → (sampleClock.parseFromRfc3339 t).isSome = true ∧ '\t' ∉ t := by
    rintro t rfl
    decide +kernel
  have hparams : ∀ l ∈ linesOf "target_name: a\n".toList, timestampOf sampleClock l = none := by decide +kernel
  obtain ⟨contents, rest, lineno, -, -, -, hsome, hlines⟩ :=
    captured_log_is_read hreaches hcaller hnow hparams rfl
  obtain ⟨hsplit, rfl⟩ := hsome ⟨.stdout, by rw [hstdout]; exact List.cons_ne_nil _ _⟩
  refine ⟨contents, rest, hsplit, ?_, ?_⟩
  · rw [hlines .stdout, hstdout]
    decide +kernel
  · rw [hlines .stderr, hstderr]
    decide +kernel

end Evobench.Run

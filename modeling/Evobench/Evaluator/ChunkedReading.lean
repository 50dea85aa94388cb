import Evobench.Evaluator.ReadFile

/-!
# Reading a log in chunks

A chunk ends after a line break, and what follows the last message in a chunk is trimmed off: the line break itself, but
also all blank lines before it. Such lines are an error elsewhere, so where the chunks end matters for a file that has blank
lines, or lines that end in a form feed: `CutsWell` says when it does not. The main result is `chunked_reading_iff`.
-/

namespace Evobench.Evaluator

open Library

/-- What the reading of a file needs to know about the parser: a blank text is no message, and white space after a message
is of no significance. -/
structure IsJsonParser (parse : List UInt8 → Option LogMessage) : Prop where
  /-- A blank text is no message. -/
  blank : ∀ line, (∀ b ∈ line, isAsciiWhitespace b = true) → parse line = none
  /-- White space after a message is of no significance. -/
  trailing : ∀ line msg, parse line = some msg → parse (trimAsciiEnd line) = some msg

/-- A line of white space. -/
def Blank (line : List UInt8) : Prop := ∀ b ∈ line, isAsciiWhitespace b = true

instance (line : List UInt8) : Decidable (Blank line) :=
  List.decidableBAll (fun b => isAsciiWhitespace b = true) line

/-! ### The lines of a chunk -/

theorem isAsciiWhitespace_newline : isAsciiWhitespace newline = true := rfl

theorem trimAsciiEnd_append_of_blank (bytes : List UInt8) {blank : List UInt8} (h : Blank blank) :
    trimAsciiEnd (bytes ++ blank) = trimAsciiEnd bytes := by
  induction blank using List.reverseRecOn with
  | nil => rw [List.append_nil]
  | append_singleton blank b ih =>
    have hb : isAsciiWhitespace b = true := h b (List.mem_append_right _ List.mem_cons_self)
    rw [← List.append_assoc, trimAsciiEnd, List.rdropWhile_concat_pos _ _ _ hb]
    exact ih fun b hb => h b (List.mem_append_left _ hb)

theorem trimAsciiEnd_of_blank {line : List UInt8} (h : Blank line) : trimAsciiEnd line = [] :=
  List.rdropWhile_eq_nil_iff.2 h

/-- What is left of a line that is not blank is the same with other bytes before it. -/
theorem trimAsciiEnd_append {line : List UInt8} (h : ¬ Blank line) (bytes : List UInt8) :
    trimAsciiEnd (bytes ++ line) = bytes ++ trimAsciiEnd line := by
  induction line using List.reverseRecOn with
  | nil => exact absurd (fun b hb => by cases hb) h
  | append_singleton line b ih =>
    by_cases hb : isAsciiWhitespace b = true
    · have hline : ¬ Blank line := by
        intro hline
        apply h
        intro b' hb'
        rcases List.mem_append.1 hb' with hb' | hb'
        · exact hline b' hb'
        · obtain rfl := List.mem_singleton.1 hb'
          exact hb
      rw [← List.append_assoc, trimAsciiEnd, List.rdropWhile_concat_pos _ _ _ hb, trimAsciiEnd,
        List.rdropWhile_concat_pos _ _ _ hb]
      exact ih hline
    · rw [← List.append_assoc, trimAsciiEnd, List.rdropWhile_concat_neg _ _ _ hb, trimAsciiEnd,
        List.rdropWhile_concat_neg _ _ _ hb, List.append_assoc]

theorem trimAsciiEnd_isPrefixOf (line : List UInt8) : trimAsciiEnd line <+: line := List.rdropWhile_prefix _ _

/-- Lines are all blank, or there is a last one that is not. -/
theorem blank_or_exists_last (ls : List (List UInt8)) :
    (∀ l ∈ ls, Blank l) ∨ ∃ before line blanks, ls = before ++ line :: blanks ∧ ¬ Blank line ∧ ∀ l ∈ blanks, Blank l := by
  induction ls using List.reverseRecOn with
  | nil => exact .inl fun l hl => by cases hl
  | append_singleton ls l ih =>
    by_cases hl : Blank l
    · rcases ih with hblank | ⟨before, line, blanks, rfl, hline, hblanks⟩
      · left
        intro l' hl'
        rcases List.mem_append.1 hl' with hl' | hl'
        · exact hblank l' hl'
        · obtain rfl := List.mem_singleton.1 hl'
          exact hl
      · right
        refine ⟨before, line, blanks ++ [l], by simp, hline, ?_⟩
        intro l' hl'
        rcases List.mem_append.1 hl' with hl' | hl'
        · exact hblanks l' hl'
        · obtain rfl := List.mem_singleton.1 hl'
          exact hl
    · exact .inr ⟨ls, l, [], rfl, hl, fun l hl => by cases hl⟩

/-- There is one last line that is not blank. -/
theorem last_unique {before before' blanks blanks' : List (List UInt8)} {line line' : List UInt8}
    (h : before ++ line :: blanks = before' ++ line' :: blanks') (hline : ¬ Blank line) (hline' : ¬ Blank line')
    (hblanks : ∀ l ∈ blanks, Blank l) (hblanks' : ∀ l ∈ blanks', Blank l) :
    before = before' ∧ line = line' ∧ blanks = blanks' := by
  rcases List.append_eq_append_iff.1 h with ⟨c, rfl, he⟩ | ⟨c, rfl, he⟩
  · cases c with
    | nil =>
      obtain ⟨rfl, rfl⟩ := List.cons.inj he
      exact ⟨(List.append_nil _).symm, rfl, rfl⟩
    | cons x c =>
      obtain ⟨rfl, rfl⟩ := List.cons.inj he
      exact absurd (hblanks line' (List.mem_append_right _ List.mem_cons_self)) hline'
  · cases c with
    | nil =>
      obtain ⟨rfl, rfl⟩ := List.cons.inj he
      exact ⟨List.append_nil _, rfl, rfl⟩
    | cons x c =>
      obtain ⟨rfl, rfl⟩ := List.cons.inj he
      exact absurd (hblanks' line (List.mem_append_right _ List.mem_cons_self)) hline

theorem blank_unlines {ls : List (List UInt8)} (h : ∀ l ∈ ls, Blank l) : Blank (unlines newline ls) := by
  intro b hb
  obtain ⟨l, hl, hb⟩ := List.mem_flatMap.1 hb
  rcases List.mem_append.1 hb with hb | hb
  · exact h l hl b hb
  · obtain rfl := List.mem_singleton.1 hb
    exact isAsciiWhitespace_newline

/-- Blank lines by themselves are one empty line. -/
theorem runLines_of_blank {run : List (List UInt8)} (h : ∀ l ∈ run, Blank l) : runLines run = [[]] := by
  rw [runLines, trimAsciiEnd_of_blank (blank_unlines h)]
  rfl

/-- Blank lines at the end are left out, and white space after the last message. -/
theorem runLines_eq {before blanks : List (List UInt8)} {line : List UInt8} (hline : ¬ Blank line)
    (hblanks : ∀ l ∈ blanks, Blank l) (hbefore : ∀ l ∈ before, newline ∉ l) (hnewline : newline ∉ line) :
    runLines (before ++ line :: blanks) = before ++ [trimAsciiEnd line] := by
  have hend : Blank (newline :: unlines newline blanks) := by
    intro b hb
    rcases List.mem_cons.1 hb with rfl | hb
    · exact isAsciiWhitespace_newline
    · exact blank_unlines hblanks b hb
  have hnot : newline ∉ trimAsciiEnd line := fun hmem => hnewline ((trimAsciiEnd_isPrefixOf line).subset hmem)
  rw [runLines, unlines_append, unlines_cons, ← List.append_assoc, trimAsciiEnd_append_of_blank _ hend,
    trimAsciiEnd_append hline, splitOn_unlines hbefore hnot]

/-! ### Which chunks are read -/

variable {parse : List UInt8 → Option LogMessage}

/-- The lines are messages, and then blank lines. -/
def Closed (parse : List UInt8 → Option LogMessage) (run : List (List UInt8)) : Prop :=
  ∃ before line blanks, run = before ++ line :: blanks ∧ (∀ l ∈ before, parse l ≠ none) ∧ parse (trimAsciiEnd line) ≠ none ∧
    ∀ l ∈ blanks, Blank l

/-- The messages on the lines. -/
def messagesOf (parse : List UInt8 → Option LogMessage) (ls : List (List UInt8)) : List LogMessage :=
  ls.filterMap fun line => parse (trimAsciiEnd line)

theorem messagesOf_append (ls ls' : List (List UInt8)) :
    messagesOf parse (ls ++ ls') = messagesOf parse ls ++ messagesOf parse ls' := List.filterMap_append

theorem messagesOf_cons (line : List UInt8) (ls : List (List UInt8)) :
    messagesOf parse (line :: ls) = (parse (trimAsciiEnd line)).toList ++ messagesOf parse ls := by
  rw [messagesOf, List.filterMap_cons]
  cases parse (trimAsciiEnd line) with
  | none => rfl
  | some msg => rfl

theorem messagesOf_flatten (runs : List (List (List UInt8))) :
    messagesOf parse runs.flatten = (runs.map (messagesOf parse)).flatten := by
  induction runs with
  | nil => rfl
  | cons run runs ih => rw [List.flatten_cons, messagesOf_append, ih, List.map_cons, List.flatten_cons]

theorem IsJsonParser.not_blank (hparse : IsJsonParser parse) {line : List UInt8} (h : parse (trimAsciiEnd line) ≠ none) :
    ¬ Blank line := by
  intro hblank
  rw [trimAsciiEnd_of_blank hblank] at h
  exact h (hparse.blank [] fun b hb => by cases hb)

theorem IsJsonParser.trim (hparse : IsJsonParser parse) {line : List UInt8} (h : parse line ≠ none) :
    parse (trimAsciiEnd line) = parse line := by
  obtain ⟨msg, hmsg⟩ := Option.ne_none_iff_exists'.1 h
  rw [hmsg, hparse.trailing line msg hmsg]

theorem messagesOf_blank (hparse : IsJsonParser parse) {ls : List (List UInt8)} (h : ∀ l ∈ ls, Blank l) :
    messagesOf parse ls = [] := by
  rw [messagesOf, List.filterMap_eq_nil_iff]
  intro l hl
  by_contra hne
  exact hparse.not_blank hne (h l hl)

/-- Messages by themselves. -/
theorem mapM_parse (hparse : IsJsonParser parse) {ls : List (List UInt8)} (h : ∀ l ∈ ls, parse l ≠ none) :
    ls.mapM parse = some (messagesOf parse ls) := by
  induction ls with
  | nil => rfl
  | cons l ls ih =>
    obtain ⟨msg, hmsg⟩ := Option.ne_none_iff_exists'.1 (h l List.mem_cons_self)
    rw [List.mapM_cons, hmsg, ih fun l' hl' => h l' (List.mem_cons_of_mem _ hl'), messagesOf_cons,
      hparse.trailing l msg hmsg]
    rfl

/-- Blank lines at the end do not matter, nor does white space after the last message. -/
theorem messagesOf_trim (hparse : IsJsonParser parse) (before : List (List UInt8)) {line : List UInt8}
    {blanks : List (List UInt8)} (hline : parse (trimAsciiEnd line) ≠ none) (hblanks : ∀ l ∈ blanks, Blank l) :
    messagesOf parse (before ++ [trimAsciiEnd line]) = messagesOf parse (before ++ line :: blanks) := by
  rw [messagesOf_append, messagesOf_append, messagesOf_cons, messagesOf_cons, messagesOf_blank hparse hblanks,
    hparse.trim hline]
  rfl

theorem forall_of_mapM {ls : List (List UInt8)} {messages : List LogMessage} (h : ls.mapM parse = some messages) :
    ∀ l ∈ ls, parse l ≠ none := by
  induction ls generalizing messages with
  | nil => exact fun l hl => by cases hl
  | cons l ls ih =>
    rw [List.mapM_cons] at h
    obtain ⟨msg, hmsg, h⟩ := Option.bind_eq_some_iff.1 h
    obtain ⟨rest, hrest, -⟩ := Option.bind_eq_some_iff.1 h
    intro l' hl'
    rcases List.mem_cons.1 hl' with rfl | hl'
    · rw [hmsg]
      exact Option.some_ne_none msg
    · exact ih hrest l' hl'

/-- **A chunk is read** if it is closed. -/
theorem mapM_runLines_eq_some_iff (hparse : IsJsonParser parse) {run : List (List UInt8)} (hrun : ∀ l ∈ run, newline ∉ l)
    {messages : List LogMessage} :
    (runLines run).mapM parse = some messages ↔ Closed parse run ∧ messages = messagesOf parse run := by
  rcases blank_or_exists_last run with hblank | ⟨before, line, blanks, rfl, hline, hblanks⟩
  · rw [runLines_of_blank hblank]
    refine iff_of_false (fun h => ?_) ?_
    · exact forall_of_mapM h [] List.mem_cons_self (hparse.blank [] fun b hb => by cases hb)
    · rintro ⟨⟨before, line, blanks, rfl, -, hline, -⟩, -⟩
      exact hparse.not_blank hline (hblank line (List.mem_append_right _ List.mem_cons_self))
  · have hbefore : ∀ l ∈ before, newline ∉ l := fun l hl => hrun l (List.mem_append_left _ hl)
    have hnewline : newline ∉ line := hrun line (List.mem_append_right _ List.mem_cons_self)
    rw [runLines_eq hline hblanks hbefore hnewline]
    constructor
    · intro h
      have hall := forall_of_mapM h
      have hclosed : Closed parse (before ++ line :: blanks) :=
        ⟨before, line, blanks, rfl, fun l hl => hall l (List.mem_append_left _ hl),
          hall _ (List.mem_append_right _ List.mem_cons_self), hblanks⟩
      refine ⟨hclosed, ?_⟩
      rw [mapM_parse hparse hall] at h
      obtain rfl := Option.some.inj h
      exact messagesOf_trim hparse before (hall (trimAsciiEnd line) (List.mem_append_right _ List.mem_cons_self)) hblanks
    · rintro ⟨⟨before', line', blanks', he, hbefore', hline', hblanks'⟩, rfl⟩
      obtain ⟨rfl, rfl, rfl⟩ := last_unique he hline (hparse.not_blank hline') hblanks hblanks'
      rw [mapM_parse hparse]
      · rw [messagesOf_trim hparse before hline' hblanks']
      · intro l hl
        rcases List.mem_append.1 hl with hl | hl
        · exact hbefore' l hl
        · obtain rfl := List.mem_singleton.1 hl
          exact hline'

/-! ### Chunks and the whole -/

/-- A line that is no message is left out at the end of a chunk, and there are chunks after it. -/
def HidesLine (parse : List UInt8 → Option LogMessage) (runs : List (List (List UInt8))) : Prop :=
  (∀ run ∈ runs, Closed parse run) ∧ ∃ run ∈ runs.dropLast, ∃ line ∈ run, parse line = none

/-- All is well but for the last chunk, which is blank. -/
def EndsBlank (parse : List UInt8 → Option LogMessage) (runs : List (List (List UInt8))) : Prop :=
  Closed parse runs.flatten ∧ ∃ run ∈ runs.getLast?, ∀ line ∈ run, Blank line

theorem Closed.of_forall (hparse : IsJsonParser parse) {run : List (List UInt8)} (hne : run ≠ [])
    (h : ∀ l ∈ run, parse l ≠ none) : Closed parse run := by
  obtain ⟨before, line, rfl⟩ := List.eq_nil_or_concat run |>.resolve_left hne
  rw [List.concat_eq_append] at h ⊢
  have hline := h line (List.mem_append_right _ List.mem_cons_self)
  refine ⟨before, line, [], rfl, fun l hl => h l (List.mem_append_left _ hl), ?_, fun l hl => by cases hl⟩
  rw [hparse.trim hline]
  exact hline

theorem Closed.append {ls run : List (List UInt8)} (h : Closed parse run) (hls : ∀ l ∈ ls, parse l ≠ none) :
    Closed parse (ls ++ run) := by
  obtain ⟨before, line, blanks, rfl, hbefore, hline, hblanks⟩ := h
  refine ⟨ls ++ before, line, blanks, by rw [List.append_assoc], ?_, hline, hblanks⟩
  intro l hl
  rcases List.mem_append.1 hl with hl | hl
  · exact hls l hl
  · exact hbefore l hl

/-- What is before a line that is not blank. -/
theorem Closed.of_append (hparse : IsJsonParser parse) {ls run : List (List UInt8)} (h : Closed parse (ls ++ run))
    (hrun : ¬ ∀ l ∈ run, Blank l) : (∀ l ∈ ls, parse l ≠ none) ∧ Closed parse run := by
  obtain ⟨before, line, blanks, rfl, hline, hblanks⟩ := (blank_or_exists_last run).resolve_left hrun
  obtain ⟨before', line', blanks', he, hbefore', hline', hblanks'⟩ := h
  rw [← List.append_assoc] at he
  obtain ⟨rfl, rfl, rfl⟩ := last_unique he hline (hparse.not_blank hline') hblanks hblanks'
  exact ⟨fun l hl => hbefore' l (List.mem_append_left _ hl), before, line, blanks, rfl,
    fun l hl => hbefore' l (List.mem_append_right _ hl), hline', hblanks⟩

theorem Closed.not_blank (hparse : IsJsonParser parse) {run : List (List UInt8)} (h : Closed parse run) :
    ¬ ∀ l ∈ run, Blank l := by
  obtain ⟨before, line, blanks, rfl, -, hline, -⟩ := h
  exact fun hblank => hparse.not_blank hline (hblank line (List.mem_append_right _ List.mem_cons_self))

/-- **The chunks are read exactly if the whole is**, but for what is hidden at the ends of chunks. -/
theorem closed_iff (hparse : IsJsonParser parse) {runs : List (List (List UInt8))} (hne : ∀ run ∈ runs, run ≠ [])
    (hruns : runs ≠ []) :
    ((∀ run ∈ runs, Closed parse run) ↔ Closed parse runs.flatten) ↔ ¬ HidesLine parse runs ∧ ¬ EndsBlank parse runs := by
  obtain ⟨init, last, rfl⟩ := List.eq_nil_or_concat runs |>.resolve_left hruns
  rw [List.concat_eq_append] at hne ⊢
  have hflatten : (init ++ [last]).flatten = init.flatten ++ last := by simp
  have hdropLast : (init ++ [last]).dropLast = init := List.dropLast_concat
  have hgetLast : (init ++ [last]).getLast? = some last := List.getLast?_concat
  have hlast : last ∈ init ++ [last] := List.mem_append_right _ List.mem_cons_self
  constructor
  · intro hiff
    constructor
    · rintro ⟨hclosed, run, hrun, line, hline, hnone⟩
      rw [hdropLast] at hrun
      have hwhole := hiff.1 hclosed
      rw [hflatten] at hwhole
      exact (hwhole.of_append hparse ((hclosed last hlast).not_blank hparse)).1 line (List.mem_flatten.2 ⟨run, hrun, hline⟩) hnone
    · rintro ⟨hwhole, run, hrun, hblank⟩
      rw [hgetLast] at hrun
      obtain rfl := Option.some.inj hrun
      exact (hiff.2 hwhole last hlast).not_blank hparse hblank
  · rintro ⟨hhides, hends⟩
    constructor
    · intro hclosed
      rw [hflatten]
      apply (hclosed last hlast).append
      intro line hline hnone
      obtain ⟨run, hrun, hline⟩ := List.mem_flatten.1 hline
      exact hhides ⟨hclosed, run, by rwa [hdropLast], line, hline, hnone⟩
    · intro hwhole
      have hnot : ¬ ∀ l ∈ last, Blank l := fun hblank => hends ⟨hwhole, last, hgetLast, hblank⟩
      rw [hflatten] at hwhole
      obtain ⟨hinit, hclosed⟩ := hwhole.of_append hparse hnot
      intro run hrun
      rcases List.mem_append.1 hrun with hrun' | hrun'
      · exact .of_forall hparse (hne run hrun) fun l hl => hinit l (List.mem_flatten.2 ⟨run, hrun', hl⟩)
      · obtain rfl := List.mem_singleton.1 hrun'
        exact hclosed

/-! ### The rest of a file -/

/-- The last message is `TEnd`. -/
def EndsWithTEnd (parse : List UInt8 → Option LogMessage) (ls : List (List UInt8)) : Prop :=
  ∃ timing, (messagesOf parse ls).getLast? = some (.tEnd timing)

theorem messagesOf_ne_nil {run : List (List UInt8)} (h : Closed parse run) : messagesOf parse run ≠ [] := by
  obtain ⟨before, line, blanks, rfl, -, hline, -⟩ := h
  obtain ⟨msg, hmsg⟩ := Option.ne_none_iff_exists'.1 hline
  rw [messagesOf_append, messagesOf_cons, hmsg]
  simp

theorem getLast?_flatten_concat {α : Type*} (init : List (List α)) {last : List α} (h : last ≠ []) :
    (init ++ [last]).flatten.getLast? = last.getLast? := by
  rw [List.flatten_append, List.flatten_singleton, List.getLast?_append_of_ne_nil _ h]

/-- **Which rests of a file are read**, in chunks. -/
theorem exists_restReads_iff (hparse : IsJsonParser parse) {n : ℕ} {ls : List (List UInt8)} (hls : ∀ l ∈ ls, newline ∉ l)
    {runs : List (List (List UInt8))} (hruns : Packed lineSize n ls runs) (ms : List LogMessage) :
    (∃ messages, RestReads parse n (unlines newline ls) messages ∧ messages.flatten = ms) ↔
      (∀ run ∈ runs, Closed parse run) ∧ EndsWithTEnd parse ls ∧ ms = messagesOf parse ls := by
  have hnewline : ∀ run ∈ runs, ∀ l ∈ run, newline ∉ l := by
    intro run hrun l hl
    apply hls l
    rw [← hruns.flatten]
    exact List.mem_flatten.2 ⟨run, hrun, hl⟩
  have hreads : ∀ messages, List.Forall₂ (fun run ms => (runLines run).mapM parse = some ms) runs messages ↔
      (∀ run ∈ runs, Closed parse run) ∧ messages = runs.map (messagesOf parse) := by
    intro messages
    clear hruns
    induction runs generalizing messages with
    | nil => simp
    | cons run runs ih =>
      rw [List.forall₂_cons_left_iff]
      simp only [mapM_runLines_eq_some_iff hparse (hnewline run List.mem_cons_self),
        ih fun run' hrun' => hnewline run' (List.mem_cons_of_mem _ hrun'), List.forall_mem_cons, List.map_cons]
      constructor
      · rintro ⟨ms, rest, ⟨hclosed, rfl⟩, ⟨hrest, rfl⟩, rfl⟩
        exact ⟨⟨hclosed, hrest⟩, rfl⟩
      · rintro ⟨⟨hclosed, hrest⟩, rfl⟩
        exact ⟨_, _, ⟨hclosed, rfl⟩, ⟨hrest, rfl⟩, rfl⟩
  have hflatten : (runs.map (messagesOf parse)).flatten = messagesOf parse ls := by
    rw [← messagesOf_flatten, hruns.flatten]
  -- The last message of the last chunk is the last one of all.
  have hlast : (∀ run ∈ runs, Closed parse run) →
      ((∃ ms timing, (runs.map (messagesOf parse)).getLast? = some ms ∧ ms.getLast? = some (.tEnd timing)) ↔
        EndsWithTEnd parse ls) := by
    intro hclosed
    rw [EndsWithTEnd, ← hflatten]
    rcases List.eq_nil_or_concat runs with rfl | ⟨init, last, rfl⟩
    · simp
    · rw [List.concat_eq_append] at hclosed ⊢
      have hne := messagesOf_ne_nil (hclosed last (List.mem_append_right _ List.mem_cons_self))
      rw [List.map_append, List.map_singleton, List.getLast?_concat, getLast?_flatten_concat _ hne]
      constructor
      · rintro ⟨ms, timing, hms, htiming⟩
        obtain rfl := Option.some.inj hms
        exact ⟨timing, htiming⟩
      · rintro ⟨timing, htiming⟩
        exact ⟨_, timing, rfl, htiming⟩
  constructor
  · rintro ⟨messages, ⟨⟨ls', runs', hrest, hls', hruns', hlines⟩, hcomplete⟩, rfl⟩
    have hsplit := splitOn_unlines hls List.not_mem_nil
    rw [hrest, splitOn_unlines hls' List.not_mem_nil] at hsplit
    obtain rfl := (List.append_inj' hsplit rfl).1
    obtain rfl := hruns.unique hruns'
    obtain ⟨hclosed, rfl⟩ := (hreads messages).1 hlines
    exact ⟨hclosed, (hlast hclosed).1 hcomplete, hflatten⟩
  · rintro ⟨hclosed, hend, rfl⟩
    exact ⟨_, ⟨⟨ls, runs, rfl, hls, hruns, (hreads _).2 ⟨hclosed, rfl⟩⟩, (hlast hclosed).2 hend⟩, hflatten⟩

/-! ### The file -/

/-- The messages of a file that is accepted, in the order of the file. -/
def messagesRead : Outcome String LogData → Option (List LogMessage)
  | .ok log => some log.messages.flatten
  | _ => none

/-- The two lines of a header. -/
def IsHeader (parse : List UInt8 → Option LogMessage) (l₁ l₂ : List UInt8) : Prop :=
  (∃ version evobenchVersion, parse l₁ = some (.start version evobenchVersion)) ∧
    ∃ metadata, parse l₂ = some (.metadata metadata)

/-- **The chunks end where it does not matter**: in a log with a header and a `TEnd`, no line that is no message by itself
is at the end of a chunk which is otherwise read, with other chunks after it; and the last chunk is not blank if all else is
well. -/
def CutsWell (parse : List UInt8 → Option LogMessage) (chunkSize : ℕ) (input : List UInt8) : Prop :=
  ∀ l₁ l₂ ls runs, input = unlines newline (l₁ :: l₂ :: ls) → (∀ l ∈ l₁ :: l₂ :: ls, newline ∉ l) → IsHeader parse l₁ l₂ →
    EndsWithTEnd parse ls → Packed lineSize chunkSize ls runs → ¬ HidesLine parse runs ∧ ¬ EndsBlank parse runs

theorem messagesRead_eq_some_iff {n : ℕ} {order : TaskOrder} {path : String} {input : List UInt8} {ms : List LogMessage} :
    messagesRead (LogData.readFile parse n order path input) = some ms ↔
      ∃ messages, FileReads parse n input messages ∧ messages.flatten = ms := by
  have hspec := readFile_spec parse n order path input
  generalize LogData.readFile parse n order path input = o at hspec
  cases hspec with
  | @ok log hreads =>
    constructor
    · intro h
      exact ⟨log.messages, hreads, Option.some.inj h⟩
    · rintro ⟨messages, hreads', rfl⟩
      rw [← hreads.unique hreads']
      rfl
  | err hreads hends =>
    refine iff_of_false (by simp [messagesRead]) ?_
    rintro ⟨messages, hreads', -⟩
    exact hreads messages hreads'
  | panic hreads hends =>
    refine iff_of_false (by simp [messagesRead]) ?_
    rintro ⟨messages, hreads', -⟩
    exact hreads messages hreads'

/-- A file that is read consists of lines. -/
theorem FileReads.exists_lines {n : ℕ} {input : List UInt8} {messages : List (List LogMessage)}
    (h : FileReads parse n input messages) : ∃ l₁ l₂ ls, input = unlines newline (l₁ :: l₂ :: ls) ∧
      (∀ l ∈ l₁ :: l₂ :: ls, newline ∉ l) ∧ IsHeader parse l₁ l₂ := by
  obtain ⟨l₁, l₂, rest, rfl, h₁, h₂, hstart, hmetadata, ⟨⟨ls, runs, rfl, hls, -, -⟩, -⟩⟩ := h
  refine ⟨l₁, l₂, ls, by rw [unlines_cons, unlines_cons], ?_, hstart, hmetadata⟩
  intro l hl
  rcases List.mem_cons.1 hl with rfl | hl
  · exact h₁
  · rcases List.mem_cons.1 hl with rfl | hl
    · exact h₂
    · exact hls l hl

/-- After the header there is the rest. -/
theorem fileReads_iff {n : ℕ} {l₁ l₂ : List UInt8} {ls : List (List UInt8)} (hls : ∀ l ∈ l₁ :: l₂ :: ls, newline ∉ l)
    (hheader : IsHeader parse l₁ l₂) (messages : List (List LogMessage)) :
    FileReads parse n (unlines newline (l₁ :: l₂ :: ls)) messages ↔ RestReads parse n (unlines newline ls) messages := by
  have h₁ := hls l₁ List.mem_cons_self
  have h₂ := hls l₂ (List.mem_cons_of_mem _ List.mem_cons_self)
  rw [unlines_cons, unlines_cons]
  constructor
  · intro h
    obtain ⟨l₁', l₂', rest, hsplit, hinput, -, -, hrest⟩ := h.splitOn
    rw [List.splitOn_append_cons_self_of_not_mem h₁, List.splitOn_append_cons_self_of_not_mem h₂] at hsplit
    obtain ⟨rfl, htails⟩ := List.cons.inj hsplit
    obtain ⟨rfl, -⟩ := List.cons.inj htails
    obtain rfl : unlines newline ls = rest := by simpa using hinput
    exact hrest
  · intro h
    exact ⟨l₁, l₂, _, rfl, h₁, h₂, hheader.1, hheader.2, h⟩

/-- Which files are read in chunks. -/
theorem messagesRead_iff (hparse : IsJsonParser parse) {n : ℕ} (order : TaskOrder) (path : String) {l₁ l₂ : List UInt8}
    {ls : List (List UInt8)} (hls : ∀ l ∈ l₁ :: l₂ :: ls, newline ∉ l) (hheader : IsHeader parse l₁ l₂)
    {runs : List (List (List UInt8))} (hruns : Packed lineSize n ls runs) (ms : List LogMessage) :
    messagesRead (LogData.readFile parse n order path (unlines newline (l₁ :: l₂ :: ls))) = some ms ↔
      (∀ run ∈ runs, Closed parse run) ∧ EndsWithTEnd parse ls ∧ ms = messagesOf parse ls := by
  rw [messagesRead_eq_some_iff, ← exists_restReads_iff hparse
    (fun l hl => hls l (List.mem_cons_of_mem _ (List.mem_cons_of_mem _ hl))) hruns ms]
  simp only [fileReads_iff hls hheader]

theorem eq_iff_of_eq_some_iff {α : Type*} {x y : Option α} {m : α} {p q : Prop} (hx : ∀ a, x = some a ↔ p ∧ a = m)
    (hy : ∀ a, y = some a ↔ q ∧ a = m) : x = y ↔ (p ↔ q) := by
  constructor
  · rintro rfl
    constructor
    · exact fun hp => ((hy m).1 ((hx m).2 ⟨hp, rfl⟩)).1
    · exact fun hq => ((hx m).1 ((hy m).2 ⟨hq, rfl⟩)).1
  · intro hpq
    apply Option.ext
    intro a
    rw [hx, hy, hpq]

/-- **Chunks of one size.** -/
theorem messagesRead_eq_whole_iff (hparse : IsJsonParser parse) {n : ℕ} (order order' : TaskOrder) (path : String)
    {input : List UInt8} (hfits : ∀ line ∈ (input.splitOn newline).dropLast, lineSize line ≤ n) :
    messagesRead (LogData.readFile parse n order path input) =
        messagesRead (LogData.readFile parse input.length order' path input) ↔ CutsWell parse n input := by
  by_cases hform : ∃ l₁ l₂ ls, input = unlines newline (l₁ :: l₂ :: ls) ∧ (∀ l ∈ l₁ :: l₂ :: ls, newline ∉ l) ∧
      IsHeader parse l₁ l₂
  · obtain ⟨l₁, l₂, ls, rfl, hls, hheader⟩ := hform
    have hsplit := splitOn_unlines hls List.not_mem_nil
    rw [List.append_nil] at hsplit
    rw [hsplit, List.dropLast_concat] at hfits
    have hrest : ∀ l ∈ ls, lineSize l ≤ n := fun l hl => hfits l (List.mem_cons_of_mem _ (List.mem_cons_of_mem _ hl))
    obtain ⟨runs, hruns⟩ := exists_packed hrest
    have hcuts : CutsWell parse n (unlines newline (l₁ :: l₂ :: ls)) ↔
        (EndsWithTEnd parse ls → ¬ HidesLine parse runs ∧ ¬ EndsBlank parse runs) := by
      constructor
      · exact fun h hend => h l₁ l₂ ls runs rfl hls hheader hend hruns
      · intro h l₁' l₂' ls' runs' hinput hls' hheader' hend' hruns'
        have hsplit' := splitOn_unlines hls' List.not_mem_nil
        rw [List.append_nil, ← hinput, hsplit] at hsplit'
        obtain ⟨-, htails⟩ := List.cons.inj (List.append_inj' hsplit' rfl).1
        obtain rfl := (List.cons.inj htails).2
        obtain rfl := hruns.unique hruns'
        exact h hend'
    -- The whole is one run, if it is anything.
    have hwhole : ∃ runs', Packed lineSize (unlines newline (l₁ :: l₂ :: ls)).length ls runs' ∧
        (EndsWithTEnd parse ls → ((∀ run ∈ runs', Closed parse run) ↔ Closed parse ls)) := by
      by_cases hne : ls = []
      · subst hne
        refine ⟨[], .nil, ?_⟩
        rintro ⟨timing, htiming⟩
        cases htiming
      · refine ⟨[ls], .singleton hne ?_, fun _ => by simp⟩
        have hlength : _ = total lineSize (l₁ :: l₂ :: ls) := length_unlines newline (l₁ :: l₂ :: ls)
        rw [total_cons, total_cons] at hlength
        omega
    obtain ⟨runs', hruns', hclosed'⟩ := hwhole
    rw [eq_iff_of_eq_some_iff (p := (∀ run ∈ runs, Closed parse run) ∧ EndsWithTEnd parse ls)
      (q := (∀ run ∈ runs', Closed parse run) ∧ EndsWithTEnd parse ls) (m := messagesOf parse ls)
      (fun ms => by rw [messagesRead_iff hparse order path hls hheader hruns ms, and_assoc])
      (fun ms => by rw [messagesRead_iff hparse order' path hls hheader hruns' ms, and_assoc]), hcuts]
    by_cases hend : EndsWithTEnd parse ls
    · have hne : runs ≠ [] := by
        rintro rfl
        obtain rfl : [] = ls := hruns.flatten
        obtain ⟨timing, htiming⟩ := hend
        cases htiming
      have hiff := closed_iff hparse (fun run hrun => hruns.ne_nil_of_mem hrun) hne
      rw [hruns.flatten] at hiff
      simp only [hend, and_true, hclosed' hend, forall_true_left, hiff]
    · simp [hend]
  · have hnone : ∀ n order, messagesRead (LogData.readFile parse n order path input) = none := by
      intro n order
      rw [Option.eq_none_iff_forall_ne_some]
      intro ms hms
      obtain ⟨messages, hreads, -⟩ := messagesRead_eq_some_iff.1 hms
      exact hform hreads.exists_lines
    rw [hnone, hnone]
    refine iff_of_true rfl ?_
    intro l₁ l₂ ls runs hinput hls hheader
    exact absurd ⟨l₁, l₂, ls, hinput, hls, hheader⟩ hform

/-- A log has no blank lines, and no lines that are messages only without the white space after them: then it does not
matter where the chunks end. -/
theorem CutsWell.of_forall {n : ℕ} {input : List UInt8}
    (hblank : ∀ line ∈ (input.splitOn newline).dropLast, ¬ Blank line)
    (htrim : ∀ line ∈ (input.splitOn newline).dropLast, parse (trimAsciiEnd line) ≠ none → parse line ≠ none) :
    CutsWell parse n input := by
  rintro l₁ l₂ ls runs rfl hls hheader hend hruns
  have hsplit := splitOn_unlines hls List.not_mem_nil
  rw [List.append_nil] at hsplit
  rw [hsplit, List.dropLast_concat] at hblank htrim
  have hmem : ∀ run ∈ runs, ∀ l ∈ run, l ∈ l₁ :: l₂ :: ls := by
    intro run hrun l hl
    rw [← hruns.flatten]
    exact List.mem_cons_of_mem _ (List.mem_cons_of_mem _ (List.mem_flatten.2 ⟨run, hrun, hl⟩))
  constructor
  · rintro ⟨hclosed, run, hrun, line, hline, hnone⟩
    have hrun' := List.dropLast_subset runs hrun
    obtain ⟨before, last, blanks, rfl, hbefore, hlast, hblanks⟩ := hclosed run hrun'
    rcases List.mem_append.1 hline with hline | hline
    · exact hbefore line hline hnone
    · rcases List.mem_cons.1 hline with rfl | hline
      · exact htrim line (hmem _ hrun' line (List.mem_append_right _ List.mem_cons_self)) hlast hnone
      · exact hblank line (hmem _ hrun' line (List.mem_append_right _ (List.mem_cons_of_mem _ hline))) (hblanks line hline)
  · rintro ⟨-, run, hrun, hrun'⟩
    have hrun'' := List.mem_of_getLast? hrun
    obtain ⟨line, hline⟩ := List.exists_mem_of_ne_nil run (hruns.ne_nil_of_mem hrun'')
    exact hblank line (hmem run hrun'' line hline) (hrun' line hline)

/-- **Reading in chunks is reading the whole** exactly if the chunks end where it does not matter; the order in which the
chunks are done does not matter. -/
theorem chunked_reading_iff (hparse : IsJsonParser parse) (n₁ n₂ : ℕ) (order₁ order₂ order : TaskOrder) (path : String)
    (input : List UInt8) (h₁ : ∀ line ∈ (input.splitOn newline).dropLast, lineSize line ≤ n₁)
    (h₂ : ∀ line ∈ (input.splitOn newline).dropLast, lineSize line ≤ n₂) :
    (messagesRead (LogData.readFile parse n₁ order₁ path input) =
          messagesRead (LogData.readFile parse input.length order path input) ∧
        messagesRead (LogData.readFile parse n₂ order₂ path input) =
          messagesRead (LogData.readFile parse input.length order path input)) ↔
      CutsWell parse n₁ input ∧ CutsWell parse n₂ input := by
  rw [messagesRead_eq_whole_iff hparse order₁ order path h₁, messagesRead_eq_whole_iff hparse order₂ order path h₂]

/-! ### A log with a blank line -/

/-- A line with a timing of the process. -/
def timingLine (kind : String) : List UInt8 :=
  utf8 ("\x7b\"".toList ++ kind.toList ++
    "\":\x7b\"pn\":\"main\",\"pid\":1,\"tid\":1,\"r\":\x7b\"sec\":0,\"nsec\":0\x7d,".toList ++
    "\"u\":\x7b\"sec\":0,\"usec\":0\x7d,\"s\":\x7b\"sec\":0,\"usec\":0\x7d\x7d\x7d".toList)

/-- A parser of four lines. -/
def parseSample (line : List UInt8) : Option LogMessage :=
  if line = startLine then some (.start 1 "1")
  else if line = metadataLine then some (.metadata sampleMetadata)
  else if line = timingLine "TStart" then some (.tStart (sampleTiming "main" 1))
  else if line = timingLine "TEnd" then some (.tEnd (sampleTiming "main" 1))
  else none

theorem isJsonParser_parseSample : IsJsonParser parseSample where
  blank line h := by
    have hne : ∀ line' : List UInt8, ¬ Blank line' → line ≠ line' := by
      rintro line' hline' rfl
      exact hline' h
    rw [parseSample, if_neg (hne _ (by decide +kernel)), if_neg (hne _ (by decide +kernel)),
      if_neg (hne _ (by decide +kernel)), if_neg (hne _ (by decide +kernel))]
  trailing line msg h := by
    have htrim : trimAsciiEnd startLine = startLine ∧ trimAsciiEnd metadataLine = metadataLine ∧
        trimAsciiEnd (timingLine "TStart") = timingLine "TStart" ∧ trimAsciiEnd (timingLine "TEnd") = timingLine "TEnd" := by
      decide +kernel
    have hline : trimAsciiEnd line = line := by
      unfold parseSample at h
      split_ifs at h with h₁ h₂ h₃ h₄
      · rw [h₁, htrim.1]
      · rw [h₂, htrim.2.1]
      · rw [h₃, htrim.2.2.1]
      · rw [h₄, htrim.2.2.2]
    rw [hline, h]

/-- Two chunk sizes for a log without blank lines. -/
theorem chunked_reading_sample :
    let input := unlines newline [startLine, metadataLine, timingLine "TStart", timingLine "TEnd"]
    messagesRead (LogData.readFile parseSample 160 .spawned "a.log" input) =
          messagesRead (LogData.readFile parseSample input.length .spawned "a.log" input) ∧
        messagesRead (LogData.readFile parseSample 250 .spawned "a.log" input) =
          messagesRead (LogData.readFile parseSample input.length .spawned "a.log" input) := by
  intro input
  have hblank : ∀ line ∈ (input.splitOn newline).dropLast, ¬ Blank line := by decide +kernel
  have htrim : ∀ line ∈ (input.splitOn newline).dropLast, parseSample (trimAsciiEnd line) ≠ none → parseSample line ≠ none := by
    decide +kernel
  exact (chunked_reading_iff isJsonParser_parseSample 160 250 .spawned .spawned .spawned "a.log" input (by decide +kernel)
    (by decide +kernel)).2 ⟨.of_forall hblank htrim, .of_forall hblank htrim⟩

/-- A log with a blank line is refused as a whole, and accepted where a chunk ends after that line. -/
theorem blank_line_hidden :
    let input := unlines newline [startLine, metadataLine, timingLine "TStart", [], timingLine "TEnd"]
    (∀ line ∈ (input.splitOn newline).dropLast, lineSize line ≤ 160) ∧
      messagesRead (LogData.readFile parseSample 160 .spawned "a.log" input) ≠
        messagesRead (LogData.readFile parseSample input.length .spawned "a.log" input) := by
  intro input
  constructor
  · decide +kernel
  · decide +kernel

end Evobench.Evaluator

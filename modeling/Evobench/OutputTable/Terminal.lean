import Evobench.Library.Program

/-!
# Tables on the terminal

`TerminalTable` prints a table row by row, either with the columns padded to widths that are given beforehand, or
separated by tabs. A cell can span several columns, whose widths are added together; the last column has no width.
The padding is a slice of one string of spaces, which is as long as the greatest width.

## The model

* `Row`: cells with spans, or one plain string for each column.
* `TerminalTable.writeRow`, `TerminalTable.writeTitleRow`: what is written; `out` is the text so far.
* `Cell`: a cell with the widths of its columns.

## What is proved

* `Prints`: a row is written with all its cells.
* `Fits`: the padding of a cell is no longer than the string of spaces.

The main result is `prints_iff`.

## Honest scope

Writing succeeds. `paint` is what the terminal crate does to text in a style. Anchors, font sizes and bars are left out. The
overflow checks are on, as in the release profile, and `usize` has 64 bits.
-/

namespace Evobench.OutputTable

open Library

/-! ### Rows -/

/-- `OutputTableTitle` -/
structure OutputTableTitle where
  /-- The text. -/
  text : String
  /-- How many columns this should span across; should normally be `1`. -/
  span : ℕ

/-- `OutputStyle` -/
structure OutputStyle where
  /-- Bright black. -/
  faded : Bool
  /-- Bold. -/
  bold : Bool
  /-- Italic. -/
  italic : Bool
  /-- An ANSI 256-color terminal color. -/
  color : Option UInt8

/-- `Row` -/
inductive Row where
  /-- `WithSpans` -/
  | withSpans (titles : List OutputTableTitle)
  /-- `PlainStrings` -/
  | plainStrings (items : List String)

/-- Add the spans. -/
def addSpans : ℕ → List OutputTableTitle → Outcome String ℕ
  | cols, [] => .ok cols
  | cols, title :: titles =>
    if cols + title.span < 2 ^ 64 then addSpans (cols + title.span) titles else .panic "attempt to add with overflow"

/-- Add so many widths; `None` if there are not enough. Also returns the widths after these. -/
def addWidths : ℕ → ℕ → List ℕ → Outcome String (Option ℕ × List ℕ)
  | totWidth, 0, widths => .ok (some totWidth, widths)
  | _, _ + 1, [] => .ok (none, [])
  | totWidth, n + 1, width :: widths =>
    if totWidth + width < 2 ^ 64 then addWidths (totWidth + width) n widths else .panic "attempt to add with overflow"

/-- The loop of `string_and_widths` over cells with spans. -/
def titlesAndWidths : List OutputTableTitle → List ℕ → Outcome String (List (String × Option ℕ))
  | [], _ => .ok []
  | title :: titles, widths =>
    if title.span = 0 then titlesAndWidths titles widths
    else do
      let (width, widths) ← addWidths 0 title.span widths
      let rest ← titlesAndWidths titles widths
      pure ((title.text, width) :: rest)

/-- The loop of `string_and_widths` over plain strings. -/
def itemsAndWidths : List String → List ℕ → Outcome String (List (String × Option ℕ))
  | val :: items, width :: widths => do
    let rest ← itemsAndWidths items widths
    pure ((val, some width) :: rest)
  | val :: items, [] => do
    let rest ← itemsAndWidths items []
    pure ((val, none) :: rest)
  | [], _ :: _ => .panic "given row len has been checked against widths len"
  | [], [] => .ok []

namespace Row

/-- `logical_len`: how many columns this row covers. -/
def logicalLen : Row → Outcome String ℕ
  | withSpans titles => addSpans 0 titles
  | plainStrings items => .ok items.length

/-- `string_and_widths`: adds widths together for spanned columns. The width for the last column is None. -/
def stringAndWidths (widths : List ℕ) : Row → Outcome String (List (String × Option ℕ))
  | withSpans titles => titlesAndWidths titles widths
  | plainStrings items => itemsAndWidths items widths

/-- The cells with their spans. -/
def titles : Row → List OutputTableTitle
  | withSpans titles => titles
  | plainStrings items => items.map fun item => ⟨item, 1⟩

end Row

/-! ### Tables -/

/-- `ColorOpt` -/
inductive ColorOpt where
  /-- On terminals. -/
  | auto
  /-- Always. -/
  | always
  /-- Never. -/
  | never

/-- `want_color` -/
def ColorOpt.wantColor (detectedTerminal : Bool) : ColorOpt → Bool
  | auto => detectedTerminal
  | always => true
  | never => false

/-- `TerminalTableOpts` -/
structure TerminalTableOpts where
  /-- Show the table as CSV (with '\t' as separator) instead of human-readable. -/
  tsv : Bool
  /-- Whether to use ANSI codes. -/
  color : ColorOpt

/-- `want_color` -/
def TerminalTableOpts.wantColor (opts : TerminalTableOpts) (detectedTerminal : Bool) : Bool :=
  if opts.tsv then false else opts.color.wantColor detectedTerminal

/-- The greatest width, if there is any. -/
def maxWidth (widths : List ℕ) : ℕ := widths.foldr max 0

theorem le_maxWidth {widths : List ℕ} {width : ℕ} (h : width ∈ widths) : width ≤ maxWidth widths := by
  induction widths with
  | nil => cases h
  | cons w widths ih =>
    rw [maxWidth, List.foldr_cons]
    rcases List.mem_cons.1 h with rfl | h
    · exact le_max_left _ _
    · exact (ih h).trans (le_max_right _ _)

/-- `TerminalTable`, with the text that has been written so far. -/
structure TerminalTable where
  /-- The options. -/
  opts : TerminalTableOpts
  /-- The widths of all columns but the last one. -/
  widths : List ℕ
  /-- A slice has no more elements than there is memory. -/
  length_lt : widths.length < 2 ^ 60
  /-- Spaces. -/
  padding : List Char
  /-- As many as the greatest width. -/
  padding_eq : padding = List.replicate (maxWidth widths) ' '
  /-- There was memory for them. -/
  padding_lt : maxWidth widths < 2 ^ 63
  /-- The output is a terminal. -/
  isTerminal : Bool
  /-- What has been written. -/
  out : String

namespace TerminalTable

/-- `MINIMAL_PADDING_LEN`: how many spaces to put between columns at minimum. -/
def minimalPaddingLen : ℕ := 1

/-- `new` -/
def new (widths : {widths : List ℕ // widths.length < 2 ^ 60}) (opts : TerminalTableOpts) (isTerminal : Bool) :
    Outcome String TerminalTable :=
  if h : maxWidth widths.1 < 2 ^ 63 then
    .ok ⟨opts, widths.1, widths.2, List.replicate (maxWidth widths.1) ' ', rfl, h, isTerminal, ""⟩
  else .panic "capacity overflow"

/-- `num_columns` -/
def numColumns (table : TerminalTable) : ℕ := table.widths.length + 1

/-- The text with what makes sure that italic text is not clipped on terminals. -/
def cellText (lineStyle : Option OutputStyle) (text : String) : String :=
  match lineStyle with
  | some _ => text ++ " "
  | none => text

/-- The minimal padding; the space at the end of a text in a style counts. -/
def minimalPadding : Option OutputStyle → ℕ
  | some _ => minimalPaddingLen - 1
  | none => minimalPaddingLen

variable (paint : OutputStyle → String → String)

/-- The text as it is written. -/
def printed (lineStyle : Option OutputStyle) (text : String) : String :=
  match lineStyle with
  | some style => paint style (cellText lineStyle text)
  | none => cellText lineStyle text

/-- `&padding[0..len]` -/
def slicePadding (table : TerminalTable) (len : ℕ) : Outcome String String :=
  if len ≤ table.padding.length then .ok (String.ofList (table.padding.take len))
  else .panic s!"end byte index {len} is out of bounds of string"

/-- What `write_row` writes for one cell. -/
def writeCell (table : TerminalTable) (lineStyle : Option OutputStyle) (isFirst : Bool) (text : String)
    (widthOpt : Option ℕ) : Outcome String String := do
  let separator := if table.opts.tsv && !isFirst then "\t" else ""
  let textLen := (cellText lineStyle text).utf8ByteSize
  let padding ← match widthOpt with
    | some width =>
      if !table.opts.tsv then
        let missingPaddingLen := width - textLen
        let wantedPaddingLen := max missingPaddingLen (minimalPadding lineStyle)
        table.slicePadding wantedPaddingLen
      else pure ""
    | none => pure ""
  pure (separator ++ printed paint lineStyle text ++ padding)

/-- The loop of `write_row`. -/
def writeCells (table : TerminalTable) (lineStyle : Option OutputStyle) :
    Bool → String → List (String × Option ℕ) → Outcome String String
  | _, out, [] => .ok out
  | isFirst, out, (text, widthOpt) :: cells => do
    let written ← table.writeCell paint lineStyle isFirst text widthOpt
    writeCells table lineStyle false (out ++ written) cells

/-- `write_row` -/
def writeRow (table : TerminalTable) (row : Row) (lineStyle : Option OutputStyle) : Outcome String TerminalTable := do
  let rowNumColumns ← row.logicalLen
  if table.numColumns ≠ rowNumColumns then
    .err s!"the row contains {rowNumColumns} instead of the expected {table.numColumns} columns"
  else do
    let cells ← row.stringAndWidths table.widths
    let out ← table.writeCells paint lineStyle true table.out cells
    pure { table with out := out ++ "\n" }

/-- The style of a title row. -/
def titleStyle (table : TerminalTable) (lineStyle : Option OutputStyle) : Option OutputStyle :=
  if table.opts.wantColor table.isTerminal then some (lineStyle.getD ⟨false, true, true, none⟩) else none

/-- `write_title_row` -/
def writeTitleRow (table : TerminalTable) (titles : List OutputTableTitle) (lineStyle : Option OutputStyle) :
    Outcome String TerminalTable :=
  table.writeRow paint (.withSpans titles) (table.titleStyle lineStyle)

end TerminalTable

/-! ### What a row should print -/

/-- A cell that covers at least one column. -/
structure Cell where
  /-- The text. -/
  text : String
  /-- The widths of its columns. -/
  widths : List ℕ
  /-- It covers the last column. -/
  isLast : Bool

/-- The cells of a row. A cell with a span of `0` covers no column. -/
def cells : List OutputTableTitle → List ℕ → List Cell
  | [], _ => []
  | title :: titles, widths =>
    if title.span = 0 then cells titles widths
    else ⟨title.text, widths.take title.span, widths.length < title.span⟩ :: cells titles (widths.drop title.span)

/-- The width of a cell, unless it covers the last column. -/
def Cell.width (cell : Cell) : Option ℕ := if cell.isLast then none else some cell.widths.sum

namespace TerminalTable

variable (paint : OutputStyle → String → String)

/-- **A cell fits**: the widths can be added, and there are as many spaces as its padding needs, if it gets any. -/
def Fits (table : TerminalTable) (lineStyle : Option OutputStyle) (cell : Cell) : Prop :=
  cell.widths.sum < 2 ^ 64 ∧ (cell.isLast = true ∨ table.opts.tsv = true ∨
    max (cell.widths.sum - (cellText lineStyle cell.text).utf8ByteSize) (minimalPadding lineStyle) ≤ maxWidth table.widths)

instance (table : TerminalTable) (lineStyle : Option OutputStyle) (cell : Cell) : Decidable (table.Fits lineStyle cell) := by
  unfold Fits
  infer_instance

/-- Spaces and tabs. -/
def Blank (s : String) : Prop := ∀ c ∈ s.toList, c = ' ' ∨ c = '\t'

/-- The text of a cell with blanks around it. -/
def IsWritten (lineStyle : Option OutputStyle) (cell : Cell) (s : String) : Prop :=
  ∃ a b, Blank a ∧ Blank b ∧ s = a ++ printed paint lineStyle cell.text ++ b

/-- **All cells are written**: their texts in order with only blanks between them, then the end of the line. -/
def Prints (table : TerminalTable) (lineStyle : Option OutputStyle) (cells : List Cell)
    (r : Outcome String TerminalTable) : Prop :=
  ∃ table' ss, r = .ok table' ∧ List.Forall₂ (IsWritten paint lineStyle) cells ss ∧
    table'.out = ss.foldl (· ++ ·) table.out ++ "\n"

end TerminalTable

/-! ### Widths -/

/-- Widths that can be added. -/
theorem addWidths_eq {totWidth n : ℕ} {widths : List ℕ} (h : totWidth + (widths.take n).sum < 2 ^ 64) :
    addWidths totWidth n widths =
      .ok (if widths.length < n then none else some (totWidth + (widths.take n).sum), widths.drop n) := by
  induction widths generalizing totWidth n with
  | nil =>
    cases n with
    | zero => simp [addWidths]
    | succ n => simp [addWidths]
  | cons width widths ih =>
    cases n with
    | zero => simp [addWidths]
    | succ n =>
      rw [List.take_succ_cons, List.sum_cons, ← Nat.add_assoc] at h
      rw [addWidths, if_pos (by omega), ih h]
      simp [Nat.add_assoc]

/-- Widths that cannot. -/
theorem addWidths_eq_panic {totWidth n : ℕ} {widths : List ℕ} (htot : totWidth < 2 ^ 64)
    (h : ¬ totWidth + (widths.take n).sum < 2 ^ 64) :
    addWidths totWidth n widths = .panic "attempt to add with overflow" := by
  induction widths generalizing totWidth n with
  | nil => exact absurd htot (by simpa using h)
  | cons width widths ih =>
    cases n with
    | zero => exact absurd htot (by simpa using h)
    | succ n =>
      rw [List.take_succ_cons, List.sum_cons, ← Nat.add_assoc] at h
      rw [addWidths]
      split_ifs with hlt
      · exact ih hlt h
      · rfl

/-- The texts and the widths of cells with spans. -/
theorem titlesAndWidths_eq {titles : List OutputTableTitle} {widths : List ℕ}
    (h : ∀ cell ∈ cells titles widths, cell.widths.sum < 2 ^ 64) :
    titlesAndWidths titles widths = .ok ((cells titles widths).map fun cell => (cell.text, cell.width)) := by
  induction titles generalizing widths with
  | nil => rfl
  | cons title titles ih =>
    rw [cells] at h
    rw [titlesAndWidths, cells]
    split_ifs with hspan
    · rw [if_pos hspan] at h
      exact ih h
    · rw [if_neg hspan, List.forall_mem_cons] at h
      rw [addWidths_eq (by simpa using h.1), Outcome.ok_bind]
      simp only [ih h.2, Outcome.ok_bind, Outcome.pure_eq, List.map_cons, Cell.width, decide_eq_true_eq, Nat.zero_add]

theorem titlesAndWidths_eq_panic {titles : List OutputTableTitle} {widths : List ℕ}
    (h : ¬ ∀ cell ∈ cells titles widths, cell.widths.sum < 2 ^ 64) :
    titlesAndWidths titles widths = .panic "attempt to add with overflow" := by
  induction titles generalizing widths with
  | nil => exact absurd (by simp [cells]) h
  | cons title titles ih =>
    rw [cells] at h
    rw [titlesAndWidths]
    split_ifs with hspan
    · rw [if_pos hspan] at h
      exact ih h
    · rw [if_neg hspan, List.forall_mem_cons] at h
      by_cases hsum : (widths.take title.span).sum < 2 ^ 64
      · rw [addWidths_eq (by simpa using hsum), Outcome.ok_bind]
        simp only [ih fun hrest => h ⟨hsum, hrest⟩, Outcome.panic_bind]
      · rw [addWidths_eq_panic (by simp) (by simpa using hsum), Outcome.panic_bind]

/-- The texts and the widths of plain strings. -/
theorem itemsAndWidths_eq {items : List String} {widths : List ℕ} (h : widths.length ≤ items.length) :
    itemsAndWidths items widths =
      .ok ((cells (Row.plainStrings items).titles widths).map fun cell => (cell.text, cell.width)) := by
  induction items generalizing widths with
  | nil =>
    obtain rfl := List.length_eq_zero_iff.1 (Nat.le_zero.1 h)
    rfl
  | cons item items ih =>
    cases widths with
    | nil =>
      rw [itemsAndWidths, ih (Nat.zero_le _)]
      simp [Row.titles, cells, Cell.width]
    | cons width widths =>
      rw [itemsAndWidths, ih (Nat.le_of_succ_le_succ h)]
      simp [Row.titles, cells, Cell.width]

/-- The spans that can be added. -/
theorem addSpans_eq {cols : ℕ} {titles : List OutputTableTitle} (h : cols + (titles.map OutputTableTitle.span).sum < 2 ^ 64) :
    addSpans cols titles = .ok (cols + (titles.map OutputTableTitle.span).sum) := by
  induction titles generalizing cols with
  | nil => rfl
  | cons title titles ih =>
    rw [List.map_cons, List.sum_cons, ← Nat.add_assoc] at h ⊢
    rw [addSpans, if_pos (by omega), ih h]

/-- Plain strings cover one column each. -/
theorem sum_le_of_plainStrings {items : List String} {widths : List ℕ} {cell : Cell}
    (h : cell ∈ cells (Row.plainStrings items).titles widths) : cell.widths.sum ≤ maxWidth widths := by
  induction items generalizing widths with
  | nil => cases h
  | cons item items ih =>
    simp only [Row.titles, List.map_cons, cells, Nat.one_ne_zero, if_false, List.mem_cons] at h
    cases widths with
    | nil =>
      rcases h with rfl | h
      · exact Nat.zero_le _
      · exact ih h
    | cons width widths =>
      rcases h with rfl | h
      · have hle : width ≤ maxWidth (width :: widths) := le_maxWidth List.mem_cons_self
        simpa using hle
      · exact (ih h).trans (le_max_right _ _)

/-! ### Cells -/

namespace TerminalTable

variable (paint : OutputStyle → String → String) {table : TerminalTable} {lineStyle : Option OutputStyle}

theorem blank_empty : Blank "" := by simp [Blank]

theorem blank_separator (b : Bool) : Blank (if b then "\t" else "") := by
  cases b
  · exact blank_empty
  · simp [Blank]

/-- A slice of the padding. -/
theorem slicePadding_eq {len : ℕ} (h : len ≤ maxWidth table.widths) :
    table.slicePadding len = .ok (String.ofList (List.replicate len ' ')) := by
  have htake : table.padding.take len = List.replicate len ' ' := by
    rw [table.padding_eq, List.take_replicate, min_eq_left h]
  rw [slicePadding, table.padding_eq, List.length_replicate, if_pos h, ← table.padding_eq, htake]

theorem slicePadding_eq_panic {len : ℕ} (h : ¬ len ≤ maxWidth table.widths) :
    ∃ msg, table.slicePadding len = .panic msg := by
  rw [slicePadding, table.padding_eq, List.length_replicate, if_neg h]
  exact ⟨_, rfl⟩

theorem blank_spaces (len : ℕ) : Blank (String.ofList (List.replicate len ' ')) := by
  intro c hc
  rw [String.toList_ofList] at hc
  exact .inl (List.eq_of_mem_replicate hc)

/-- A cell that fits is written. -/
theorem writeCell_ok {cell : Cell} (h : table.Fits lineStyle cell) (isFirst : Bool) :
    ∃ s, table.writeCell paint lineStyle isFirst cell.text cell.width = .ok s ∧ IsWritten paint lineStyle cell s := by
  obtain ⟨-, hfits⟩ := h
  have hblank := blank_separator (table.opts.tsv && !isFirst)
  unfold writeCell
  dsimp only
  generalize (if (table.opts.tsv && !isFirst) = true then "\t" else "") = separator at hblank ⊢
  rw [Cell.width]
  by_cases hlast : cell.isLast = true
  · rw [if_pos hlast]
    exact ⟨_, rfl, _, _, hblank, blank_empty, rfl⟩
  · rw [if_neg hlast]
    cases htsv : table.opts.tsv with
    | true => exact ⟨_, rfl, _, _, hblank, blank_empty, rfl⟩
    | false =>
      rw [htsv, or_iff_right hlast, or_iff_right (by simp)] at hfits
      simp only [Bool.not_false, if_true, slicePadding_eq hfits, Outcome.ok_bind]
      exact ⟨_, rfl, _, _, hblank, blank_spaces _, rfl⟩

/-- A cell that does not fit is a panic. -/
theorem writeCell_panic {cell : Cell} (hsum : cell.widths.sum < 2 ^ 64) (h : ¬ table.Fits lineStyle cell) (isFirst : Bool) :
    ∃ msg, table.writeCell paint lineStyle isFirst cell.text cell.width = .panic msg := by
  rw [Fits, and_iff_right hsum, not_or, not_or] at h
  obtain ⟨hlast, htsv, hgt⟩ := h
  obtain ⟨msg, hmsg⟩ := slicePadding_eq_panic hgt
  refine ⟨msg, ?_⟩
  rw [Bool.not_eq_true] at htsv
  unfold writeCell
  rw [Cell.width, if_neg hlast]
  simp only [htsv, Bool.not_false, if_true, hmsg, Outcome.panic_bind]

/-- **The loop over the cells**, if all of them fit. -/
theorem writeCells_ok {cells : List Cell} (h : ∀ cell ∈ cells, table.Fits lineStyle cell) (isFirst : Bool) (out : String) :
    ∃ ss, table.writeCells paint lineStyle isFirst out (cells.map fun cell => (cell.text, cell.width)) =
      .ok (ss.foldl (· ++ ·) out) ∧ List.Forall₂ (IsWritten paint lineStyle) cells ss := by
  induction cells generalizing isFirst out with
  | nil => exact ⟨[], rfl, .nil⟩
  | cons cell cells ih =>
    rw [List.forall_mem_cons] at h
    obtain ⟨s, hs, hwritten⟩ := writeCell_ok paint h.1 isFirst
    obtain ⟨ss, hss, hall⟩ := ih h.2 false (out ++ s)
    refine ⟨s :: ss, ?_, .cons hwritten hall⟩
    rw [List.map_cons, writeCells, hs, Outcome.ok_bind, hss]
    rfl

/-- The first one that does not fit ends it. -/
theorem writeCells_panic {cells : List Cell} (hsum : ∀ cell ∈ cells, cell.widths.sum < 2 ^ 64)
    (h : ¬ ∀ cell ∈ cells, table.Fits lineStyle cell) (isFirst : Bool) (out : String) :
    ∃ msg, table.writeCells paint lineStyle isFirst out (cells.map fun cell => (cell.text, cell.width)) = .panic msg := by
  induction cells generalizing isFirst out with
  | nil => exact absurd (by simp) h
  | cons cell cells ih =>
    rw [List.forall_mem_cons] at h hsum
    rw [List.map_cons, writeCells]
    by_cases hcell : table.Fits lineStyle cell
    · obtain ⟨s, hs, -⟩ := writeCell_ok paint hcell isFirst
      obtain ⟨msg, hmsg⟩ := ih hsum.2 (fun hrest => h ⟨hcell, hrest⟩) false (out ++ s)
      exact ⟨msg, by rw [hs, Outcome.ok_bind, hmsg]⟩
    · obtain ⟨msg, hmsg⟩ := writeCell_panic paint hsum.1 hcell isFirst
      exact ⟨msg, by rw [hmsg, Outcome.panic_bind]⟩

/-! ### Rows that cover all columns -/

/-- The number of columns is counted right. -/
theorem logicalLen_eq {row : Row} (h : (row.titles.map OutputTableTitle.span).sum = table.numColumns) :
    row.logicalLen = .ok table.numColumns := by
  have hlt := table.length_lt
  cases row with
  | withSpans titles =>
    have hsum : (titles.map OutputTableTitle.span).sum = table.numColumns := h
    have hbound : 0 + (titles.map OutputTableTitle.span).sum < 2 ^ 64 := by
      rw [hsum, numColumns]
      omega
    rw [Row.logicalLen, addSpans_eq hbound, hsum, Nat.zero_add]
  | plainStrings items =>
    have hlength : items.length = table.numColumns := by simpa [Row.titles, Function.comp_def] using h
    rw [Row.logicalLen, hlength]

/-- The texts and widths of the cells, if the widths can be added. -/
theorem stringAndWidths_eq {row : Row} (h : (row.titles.map OutputTableTitle.span).sum = table.numColumns) :
    (row.stringAndWidths table.widths = .ok ((cells row.titles table.widths).map fun cell => (cell.text, cell.width)) ∧
        ∀ cell ∈ cells row.titles table.widths, cell.widths.sum < 2 ^ 64) ∨
      row.stringAndWidths table.widths = .panic "attempt to add with overflow" ∧
        ¬ ∀ cell ∈ cells row.titles table.widths, cell.widths.sum < 2 ^ 64 := by
  cases row with
  | withSpans titles =>
    by_cases hsum : ∀ cell ∈ cells titles table.widths, cell.widths.sum < 2 ^ 64
    · exact .inl ⟨titlesAndWidths_eq hsum, hsum⟩
    · exact .inr ⟨titlesAndWidths_eq_panic hsum, hsum⟩
  | plainStrings items =>
    have hlength : items.length = table.numColumns := by simpa [Row.titles, Function.comp_def] using h
    refine .inl ⟨itemsAndWidths_eq (by rw [hlength, numColumns]; omega), fun cell hcell => ?_⟩
    exact (sum_le_of_plainStrings hcell).trans_lt (table.padding_lt.trans (by decide))

/-- **A row whose cells cover all columns is printed** if and only if all its cells fit. -/
theorem writeRow_prints_iff {row : Row} (h : (row.titles.map OutputTableTitle.span).sum = table.numColumns) :
    table.Prints paint lineStyle (cells row.titles table.widths) (table.writeRow paint row lineStyle) ↔
      ∀ cell ∈ cells row.titles table.widths, table.Fits lineStyle cell := by
  rw [writeRow, logicalLen_eq h]
  simp only [Outcome.ok_bind, ne_eq, not_true, if_false]
  rcases stringAndWidths_eq h with ⟨hok, hsum⟩ | ⟨hpanic, hsum⟩
  · rw [hok, Outcome.ok_bind]
    by_cases hfits : ∀ cell ∈ cells row.titles table.widths, table.Fits lineStyle cell
    · obtain ⟨ss, hss, hall⟩ := writeCells_ok paint hfits true table.out
      refine iff_of_true ⟨{ table with out := ss.foldl (· ++ ·) table.out ++ "\n" }, ss, ?_, hall, rfl⟩ hfits
      rw [hss]
      rfl
    · obtain ⟨msg, hmsg⟩ := writeCells_panic paint hsum hfits true table.out
      refine iff_of_false ?_ hfits
      rintro ⟨table', ss, hr, -⟩
      rw [hmsg] at hr
      cases hr
  · refine iff_of_false ?_ fun hfits => hsum fun cell hcell => (hfits cell hcell).1
    rintro ⟨table', ss, hr, -⟩
    rw [hpanic] at hr
    cases hr

end TerminalTable

/-- **When rows and title rows are printed**, if their cells cover all columns: if and only if all cells fit. -/
theorem prints_iff (paint : OutputStyle → String → String) (table : TerminalTable) :
    (∀ row lineStyle, (row.titles.map OutputTableTitle.span).sum = table.numColumns →
      (table.Prints paint lineStyle (cells row.titles table.widths) (table.writeRow paint row lineStyle) ↔
        ∀ cell ∈ cells row.titles table.widths, table.Fits lineStyle cell)) ∧
      ∀ titles lineStyle, (titles.map OutputTableTitle.span).sum = table.numColumns →
        (table.Prints paint (table.titleStyle lineStyle) (cells titles table.widths)
            (table.writeTitleRow paint titles lineStyle) ↔
          ∀ cell ∈ cells titles table.widths, table.Fits (table.titleStyle lineStyle) cell) :=
  ⟨fun _ _ h => TerminalTable.writeRow_prints_iff paint h, fun titles _ h =>
    TerminalTable.writeRow_prints_iff paint (show ((Row.withSpans titles).titles.map OutputTableTitle.span).sum = _ from h)⟩

/-- Bold and italic text. -/
def samplePaint (_ : OutputStyle) (text : String) : String := "\x1b[1;3m" ++ text ++ "\x1b[0m"

/-- A table with three columns, on a terminal. -/
def sampleTable : TerminalTable :=
  ⟨⟨false, .auto⟩, [10, 10], by decide, List.replicate 10 ' ', rfl, by decide, true, ""⟩

/-- One title over the first two columns, with a text that is long enough, and one for the last column. -/
def sampleTitles : List OutputTableTitle := [⟨"Insertion time", 2⟩, ⟨"Commit", 1⟩]

theorem prints_sample :
    sampleTable.Prints samplePaint none (cells (Row.plainStrings ["a", "b", "c"]).titles sampleTable.widths)
        (sampleTable.writeRow samplePaint (.plainStrings ["a", "b", "c"]) none) ∧
      sampleTable.Prints samplePaint (sampleTable.titleStyle none) (cells sampleTitles sampleTable.widths)
        (sampleTable.writeTitleRow samplePaint sampleTitles none) :=
  ⟨((prints_iff samplePaint sampleTable).1 (.plainStrings ["a", "b", "c"]) none rfl).2 (by decide +kernel),
    ((prints_iff samplePaint sampleTable).2 sampleTitles none rfl).2 (by decide +kernel)⟩

/-- A title over two columns that needs more padding than one column is wide. -/
theorem spanned_title_is_a_panic :
    ¬ ∀ (paint : OutputStyle → String → String) (table : TerminalTable) (row : Row) (lineStyle : Option OutputStyle),
      (row.titles.map OutputTableTitle.span).sum = table.numColumns →
        table.Prints paint lineStyle (cells row.titles table.widths) (table.writeRow paint row lineStyle) := by
  intro h
  obtain ⟨table', ss, hr, -⟩ := h samplePaint sampleTable (.withSpans [⟨"Job", 2⟩, ⟨"Commit", 1⟩]) none rfl
  cases hr

end Evobench.OutputTable

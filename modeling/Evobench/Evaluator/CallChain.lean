import Evobench.Evaluator.Evaluation
import Evobench.Library.Decimal
import Evobench.Library.Split

/-!
# Call chains

A path stands for the chain of labels from the nearest process or thread around a span down to the span. For the outputs
of the program, and labels that do not have the characters of the separators, the chain is known from the path
(`chainText_inj`), and the paths of different kinds are different (`apart_optss`).
-/

namespace Evobench.Evaluator

open Library

/-! ### The outputs -/

/-- `EvaluationOpts`, as far as it concerns what rows there are. -/
structure EvaluationOpts where
  /-- Include the internally-allocated thread number in call path strings in the output. -/
  showThreadNumber : Bool
  /-- Show the call path so that the leaf instead of the root is on the left. -/
  showReversed : Bool
deriving DecidableEq

/-- `CheckedOutputOptionsMapCase` -/
inductive CheckedOutputOptionsMapCase where
  /-- Tables. -/
  | excel
  /-- Flame graphs. -/
  | flame
deriving DecidableEq

/-- `key_details_for` -/
def keyDetailsFor (case : CheckedOutputOptionsMapCase) (evaluationOpts : EvaluationOpts) : KeyRuntimeDetails :=
  match case with
  | .excel =>
    { normalSeparator := " > "
      reverseSeparator := " < "
      showProbeNames := true
      showPathsWithoutThreadNumber := true
      showPathsWithThreadNumber := evaluationOpts.showThreadNumber
      showPathsReversedToo := evaluationOpts.showReversed
      pathPrefix := none
      skipProcess := false }
  | .flame =>
    { normalSeparator := ";"
      reverseSeparator := ";"
      showProbeNames := false
      showPathsWithoutThreadNumber := !evaluationOpts.showThreadNumber
      showPathsWithThreadNumber := evaluationOpts.showThreadNumber
      showPathsReversedToo := false
      pathPrefix := some ""
      skipProcess := true }

/-! ### Chains -/

/-- Where a chain ends. -/
inductive Top where
  /-- A process. -/
  | process
  /-- The thread with the number. -/
  | thread (number : ThreadNumber)
deriving DecidableEq

/-- Processes and threads. -/
def Span.top (span : Span) : Option Top :=
  match span.data with
  | .scope .process _ _ _ => some .process
  | .scope .thread number _ _ => some (.thread number)
  | .scope .scope _ _ _ => none
  | .keyValue _ => none

/-- The label of any other span. -/
def Span.label (span : Span) : Option String :=
  match span.data with
  | .scope .process _ _ _ => none
  | .scope .thread _ _ _ => none
  | .scope .scope _ start _ => some start.pn
  | .keyValue kv => some (kv.k ++ "=" ++ kv.v)

/-- The chain of labels of a span, from the nearest process or thread around it. -/
inductive HasChain (tree : LogDataTree) : Span → Top → List String → Prop where
  /-- A process or thread. -/
  | top {span : Span} {top : Top} (htop : span.top = some top) : HasChain tree span top []
  /-- A span inside of another one. -/
  | inner {span parent : Span} {id : SpanId} {label : String} {top : Top} {labels : List String}
      (hlabel : span.label = some label) (hparent : span.parent = some id) (hget : tree.get? id = some parent)
      (hchain : HasChain tree parent top labels) : HasChain tree span top (labels ++ [label])

/-- The same top, where the number of the thread may count or not. -/
def Top.Same (countNumber : Bool) : Top → Top → Prop
  | .process, .process => True
  | .thread m, .thread n => countNumber = true → m = n
  | _, _ => False

/-- The roots of a tree are processes and threads. -/
def RootsFit (tree : LogDataTree) : Prop := ∀ span ∈ tree.spans, span.parent = none → span.top ≠ none

/-- The labels have none of the characters of the separators. -/
def LabelsFit (tree : LogDataTree) : Prop :=
  ∀ span ∈ tree.spans, ∀ label ∈ span.label, ∀ c ∈ ['<', '>', ';'], c ∉ label.toList

variable {tree : LogDataTree}

theorem Span.top_eq_none_iff (span : Span) : span.top = none ↔ ∃ label, span.label = some label := by
  rw [Span.top, Span.label]
  cases span.data with
  | keyValue kv => simp
  | scope kind number start end_ => cases kind <;> simp

/-- Every span has a chain. -/
theorem exists_hasChain (h : WellFormed tree) (hroots : RootsFit tree) {i : ℕ} {span : Span}
    (hspan : tree.spans[i]? = some span) : ∃ top labels, HasChain tree span top labels := by
  induction i using Nat.strong_induction_on generalizing span with
  | _ i ih =>
    have hmem : span ∈ tree.spans := List.mem_of_getElem? hspan
    cases htop : span.top with
    | some top => exact ⟨top, [], .top htop⟩
    | none =>
      obtain ⟨label, hlabel⟩ := span.top_eq_none_iff.1 htop
      cases hparent : span.parent with
      | none => exact absurd htop (hroots span hmem hparent)
      | some id =>
        have hlt := h.parents i span hspan id hparent
        have hlength := (List.getElem?_eq_some_iff.1 hspan).1
        have hget : tree.get? id = some tree.spans[id.index] := List.getElem?_eq_getElem (hlt.trans hlength)
        obtain ⟨top, labels, hchain⟩ := ih id.index hlt hget
        exact ⟨top, labels ++ [label], .inner hlabel hparent hget hchain⟩

theorem HasChain.labels_fit (hlabels : LabelsFit tree) {span : Span} {top : Top} {labels : List String}
    (h : HasChain tree span top labels) (hspan : span ∈ tree.spans) :
    ∀ label ∈ labels, ∀ c ∈ ['<', '>', ';'], c ∉ label.toList := by
  induction h with
  | top htop => exact fun label hlabel => absurd hlabel List.not_mem_nil
  | inner hlabel hparent hget hchain ih =>
    intro label' hlabel'
    rcases List.mem_append.1 hlabel' with hin | hlast
    · exact ih (List.mem_of_getElem? hget) label' hin
    · obtain rfl := List.mem_singleton.1 hlast
      exact hlabels _ hspan _ hlabel

/-! ### Paths -/

/-- The separator that is used. -/
def PathStringOptions.separator (opts : PathStringOptions) : String :=
  if opts.reversed then opts.reverseSeparator else opts.normalSeparator

/-- What a top is shown as. -/
def Top.text (opts : PathStringOptions) : Top → String
  | .process => if opts.skipProcess then "" else "main thread"
  | .thread number => if opts.includeThreadNumberInPath then showThreadNumber number else "thread"

/-- What is shown, from left to right. -/
def chainParts (opts : PathStringOptions) (top : Top) (labels : List String) : List String :=
  if opts.reversed then labels.reverse ++ [top.text opts] else top.text opts :: labels

/-- The path for a chain. -/
def chainText (opts : PathStringOptions) (top : Top) (labels : List String) : List Char :=
  opts.pathPrefix.toList ++ opts.separator.toList.intercalate ((chainParts opts top labels).map String.toList)

/-- The options that are used: paths end at processes and threads, and parts are told apart by the separator. -/
structure Regular (opts : PathStringOptions) : Prop where
  /-- Paths end at processes. -/
  process : opts.ignoreProcess = true
  /-- Paths end at threads. -/
  thread : opts.ignoreThread = true
  /-- Where processes are not shown, there is no prefix either. -/
  skip : opts.skipProcess = true → opts.pathPrefix = ""
  /-- The separator has a character that is not in labels. -/
  separator : ∃ before c after, opts.separator.toList = before ++ c :: after ∧ c ∉ before ∧ c ∈ ['<', '>', ';']

/-- The kinds of paths are made by `pathOptions`. -/
theorem exists_of_mem_optss {details : KeyRuntimeDetails} {opts : PathStringOptions} (h : opts ∈ details.optss) :
    ∃ withThreadNumber reversed standardPrefix, opts = details.pathOptions withThreadNumber reversed standardPrefix := by
  have hsingle {condition : Bool} {withThreadNumber reversed : Bool} {standardPrefix : String}
      (hmem : opts ∈ if condition then [details.pathOptions withThreadNumber reversed standardPrefix] else []) :
      opts = details.pathOptions withThreadNumber reversed standardPrefix := by
    cases condition with
    | false => exact absurd hmem List.not_mem_nil
    | true => exact List.mem_singleton.1 hmem
  rw [KeyRuntimeDetails.optss] at h
  rcases List.mem_append.1 h with h | hwith
  · rcases List.mem_append.1 h with hwithout | hreversed
    · exact ⟨_, _, _, hsingle hwithout⟩
    · exact ⟨_, _, _, hsingle hreversed⟩
  · split at hwith
    · rcases List.mem_cons.1 hwith with hwith | hreversed
      · exact ⟨_, _, _, hwith⟩
      · exact ⟨_, _, _, hsingle hreversed⟩
    · exact absurd hwith List.not_mem_nil

theorem regular_optss (case : CheckedOutputOptionsMapCase) (evaluationOpts : EvaluationOpts) :
    ∀ opts ∈ (keyDetailsFor case evaluationOpts).optss, Regular opts := by
  intro opts hopts
  obtain ⟨withThreadNumber, reversed, standardPrefix, rfl⟩ := exists_of_mem_optss hopts
  cases case with
  | excel =>
    refine ⟨rfl, rfl, fun h => Bool.noConfusion h, ?_⟩
    cases reversed with
    | false =>
      refine ⟨[' '], '>', [' '], ?_, by decide, by decide⟩
      show " > ".toList = _
      simp
    | true =>
      refine ⟨[' '], '<', [' '], ?_, by decide, by decide⟩
      show " < ".toList = _
      simp
  | flame =>
    refine ⟨rfl, rfl, fun _ => rfl, [], ';', [], ?_, List.not_mem_nil, by decide⟩
    have hseparator : ((keyDetailsFor .flame evaluationOpts).pathOptions withThreadNumber reversed standardPrefix).separator =
        ";" := by
      cases reversed with
      | false => rfl
      | true => rfl
    rw [hseparator]
    simp

/-- Where a path ends. -/
theorem Regular.stop_of_top {opts : PathStringOptions} (h : Regular opts) {span : Span} {top : Top} (htop : span.top = some top)
    (out : PathBuffers) : span.stop opts out = some ((out.pushPrefix opts.pathPrefix).pushMain (top.text opts)) := by
  rw [Span.top] at htop
  unfold Span.stop
  cases hdata : span.data with
  | keyValue kv => simp [hdata] at htop
  | scope kind number start end_ =>
    rw [hdata] at htop
    cases kind with
    | process =>
      obtain rfl := Option.some.inj htop
      rw [h.process, if_pos rfl, Top.text]
      cases hskip : opts.skipProcess with
      | false => rfl
      | true =>
        rw [h.skip hskip]
        simp [PathBuffers.pushPrefix, PathBuffers.pushMain]
    | thread =>
      obtain rfl := Option.some.inj htop
      rw [h.thread, Top.text]
      cases opts.includeThreadNumberInPath with
      | false => rfl
      | true => rfl
    | scope => cases htop

theorem stop_of_label (opts : PathStringOptions) {span : Span} {label : String} (hlabel : span.label = some label)
    (out : PathBuffers) : span.stop opts out = none ∧ span.pushSelf opts out = out.pushMain label := by
  rw [Span.label] at hlabel
  rw [Span.stop.eq_def, Span.pushSelf]
  cases hdata : span.data with
  | keyValue kv =>
    rw [hdata] at hlabel
    obtain rfl := Option.some.inj hlabel
    exact ⟨rfl, by simp [PathBuffers.pushMain, String.append_assoc]⟩
  | scope kind number start end_ =>
    rw [hdata] at hlabel
    cases kind with
    | process => cases hlabel
    | thread => cases hlabel
    | scope =>
      obtain rfl := Option.some.inj hlabel
      exact ⟨rfl, rfl⟩

/-- What a chain adds to the buffers. -/
def PathBuffers.Adds (opts : PathStringOptions) (top : Top) (labels : List String) (out out' : PathBuffers) : Prop :=
  out'.outPrefix = out.outPrefix ++ opts.pathPrefix ∧
    out'.outMain.toList = out.outMain.toList ++ opts.separator.toList.intercalate ((chainParts opts top labels).map String.toList)

/-- **The path of a span is that of its chain.** -/
theorem pathString_chain {opts : PathStringOptions} (h : Regular opts) {span : Span} {top : Top} {labels : List String}
    (hchain : HasChain tree span top labels) {depth : ℕ} {out out' : PathBuffers}
    (hok : span.pathString opts tree depth out = .ok out') : out.Adds opts top labels out' := by
  induction hchain generalizing depth out out' with
  | @top span top htop =>
    rw [pathString_of_stop (h.stop_of_top htop out)] at hok
    obtain rfl := Outcome.ok.inj hok
    have hparts : chainParts opts top [] = [top.text opts] := by simp [chainParts]
    refine ⟨rfl, ?_⟩
    rw [hparts, List.map_singleton, List.intercalate_singleton]
    exact String.toList_append
  | @inner span parent id label top labels hlabel hparent hget hchain ih =>
    obtain ⟨hstop, hself⟩ := stop_of_label opts hlabel out
    cases depth with
    | zero =>
      unfold Span.pathString at hok
      simp [hstop, hparent] at hok
    | succ depth =>
      rw [pathString_of_parent hstop hparent hget] at hok
      split at hok
      · next hreversed =>
        obtain ⟨hpre, hmain⟩ := ih hok
        have hparts : chainParts opts top (labels ++ [label]) = label :: chainParts opts top labels := by
          simp [chainParts, hreversed]
        have hne : (chainParts opts top labels).map String.toList ≠ [] := by simp [chainParts, hreversed]
        rw [hself] at hpre hmain
        refine ⟨hpre, ?_⟩
        rw [hparts, List.map_cons, List.intercalate_cons_of_ne_nil hne, hmain]
        simp [PathBuffers.pushMain, PathStringOptions.separator, hreversed]
      · next hnormal =>
        obtain ⟨out₁, hout₁, hok⟩ := Outcome.bind_eq_ok.1 hok
        obtain ⟨hpre, hmain⟩ := ih hout₁
        obtain rfl := Outcome.ok.inj hok
        have hself₁ := (stop_of_label opts hlabel (out₁.pushMain opts.normalSeparator)).2
        have hparts : chainParts opts top (labels ++ [label]) = chainParts opts top labels ++ [label] := by
          simp [chainParts, hnormal]
        have hne : (chainParts opts top labels).map String.toList ≠ [] := by simp [chainParts, hnormal]
        rw [hself₁]
        refine ⟨hpre, ?_⟩
        rw [hparts, List.map_append, List.map_singleton, intercalate_concat _ hne, ← List.append_assoc, ← hmain]
        simp [PathBuffers.pushMain, PathStringOptions.separator, hnormal]

theorem path_chain {opts : PathStringOptions} (h : Regular opts) {id : SpanId} {span : Span} (hget : tree.get? id = some span)
    {top : Top} {labels : List String} (hchain : HasChain tree span top labels) {key : String}
    (hkey : IndexByCallPath.path tree opts id = .ok key) : key.toList = chainText opts top labels := by
  unfold IndexByCallPath.path at hkey
  simp only [hget] at hkey
  obtain ⟨out, hout, hkey⟩ := Outcome.bind_eq_ok.1 hkey
  obtain ⟨hpre, hmain⟩ := pathString_chain h hchain hout
  obtain rfl := Outcome.ok.inj hkey
  rw [String.toList_append, hpre, hmain]
  simp [chainText]

/-! ### What paths tell apart -/

theorem toList_showThreadNumber (number : ThreadNumber) :
    (showThreadNumber number).toList = "thread".toList ++ padded 2 number := by
  have hdigits : (toString number).toList = Nat.toDigits 10 number := Nat.toList_repr
  rw [showThreadNumber, String.toList_append, String.toList_append, hdigits, padded, List.append_assoc]
  split
  · next hlt =>
    have hone : (Nat.toDigits 10 number).length = 1 := by
      rw [Nat.toDigits_of_lt_base hlt]
      rfl
    simp [hone]
  · next hle =>
    have htwo : ¬ (Nat.toDigits 10 number).length ≤ 1 := by
      rw [Nat.length_toDigits_le_iff (by decide) (by decide)]
      omega
    simp [show 2 - (Nat.toDigits 10 number).length = 0 by omega]

theorem showThreadNumber_injective : Function.Injective showThreadNumber := by
  intro m n h
  have hlists := congrArg String.toList h
  rw [toList_showThreadNumber, toList_showThreadNumber, List.append_cancel_left_eq] at hlists
  rw [← digitsValue_padded 2 m, hlists, digitsValue_padded]

namespace Top

/-- The text for a thread starts in the same way, with the number or without. -/
theorem exists_text_thread (opts : PathStringOptions) (number : ThreadNumber) :
    ∃ rest, ((thread number).text opts).toList = 't' :: rest := by
  rw [text]
  split
  · rw [toList_showThreadNumber]
    exact ⟨['h', 'r', 'e', 'a', 'd'] ++ padded 2 number, by simp⟩
  · exact ⟨['h', 'r', 'e', 'a', 'd'], by simp⟩

theorem text_process_ne (opts : PathStringOptions) (number : ThreadNumber) :
    process.text opts ≠ (thread number).text opts := by
  intro h
  obtain ⟨rest, hrest⟩ := exists_text_thread opts number
  rw [← h, text] at hrest
  split at hrest
  · simp at hrest
  · simp at hrest

theorem text_eq_iff (opts : PathStringOptions) (top top' : Top) :
    top.text opts = top'.text opts ↔ top.Same opts.includeThreadNumberInPath top' := by
  cases top with
  | process =>
    cases top' with
    | process => exact ⟨fun _ => trivial, fun _ => rfl⟩
    | thread number => exact ⟨fun h => absurd h (text_process_ne opts number), fun h => h.elim⟩
  | thread m =>
    cases top' with
    | process => exact ⟨fun h => absurd h.symm (text_process_ne opts m), fun h => h.elim⟩
    | thread n =>
      rw [text, text, Same]
      cases opts.includeThreadNumberInPath with
      | false => simp
      | true => simp [showThreadNumber_injective.eq_iff]

theorem text_fits (opts : PathStringOptions) (top : Top) : ∀ c ∈ ['<', '>', ';'], c ∉ (top.text opts).toList := by
  have hprocess : ∀ c ∈ ['<', '>', ';'], c ∉ ("main thread" : String).toList := by simp
  have hthread : ∀ c ∈ ['<', '>', ';'], c ∉ ("thread" : String).toList := by simp
  intro c hc
  cases top with
  | process =>
    rw [text]
    split
    · exact List.not_mem_nil
    · exact hprocess c hc
  | thread number =>
    rw [text]
    split
    · rw [toList_showThreadNumber, List.mem_append, not_or]
      have hnot : ∀ c ∈ ['<', '>', ';'], Char.isDigit c = false := by simp
      exact ⟨hthread c hc, (isDigits_padded 2 number).not_mem (hnot c hc)⟩
    · exact hthread c hc

end Top

theorem chainParts_fit (opts : PathStringOptions) (top : Top) {labels : List String} {c : Char} (hc : c ∈ ['<', '>', ';'])
    (hlabels : ∀ label ∈ labels, c ∉ label.toList) : ∀ part ∈ (chainParts opts top labels).map String.toList, c ∉ part := by
  intro part hpart
  obtain ⟨text, htext, rfl⟩ := List.mem_map.1 hpart
  rw [chainParts] at htext
  split at htext
  · rcases List.mem_append.1 htext with hlabel | htop
    · exact hlabels text (List.mem_reverse.1 hlabel)
    · rw [List.mem_singleton.1 htop]
      exact top.text_fits opts c hc
  · rcases List.mem_cons.1 htext with rfl | hlabel
    · exact top.text_fits opts c hc
    · exact hlabels text hlabel

theorem chainParts_inj (opts : PathStringOptions) {top top' : Top} {labels labels' : List String} :
    chainParts opts top labels = chainParts opts top' labels' ↔ top.text opts = top'.text opts ∧ labels = labels' := by
  rw [chainParts, chainParts]
  split
  · constructor
    · intro h
      obtain ⟨hlabels, htop⟩ := List.append_inj' h rfl
      exact ⟨List.singleton_inj.1 htop, List.reverse_injective hlabels⟩
    · rintro ⟨htop, rfl⟩
      rw [htop]
  · rw [List.cons.injEq]

/-- **The chain is known from the path**, but for the number of the thread if it is not shown. -/
theorem chainText_inj {opts : PathStringOptions} (h : Regular opts) {top top' : Top} {labels labels' : List String}
    (hlabels : ∀ label ∈ labels, ∀ c ∈ ['<', '>', ';'], c ∉ label.toList)
    (hlabels' : ∀ label ∈ labels', ∀ c ∈ ['<', '>', ';'], c ∉ label.toList) :
    chainText opts top labels = chainText opts top' labels' ↔
      top.Same opts.includeThreadNumberInPath top' ∧ labels = labels' := by
  rw [← Top.text_eq_iff, ← chainParts_inj]
  constructor
  · intro htext
    obtain ⟨before, c, after, hseparator, hbefore, hc⟩ := h.separator
    have hne (top : Top) (labels : List String) : (chainParts opts top labels).map String.toList ≠ [] := by
      rw [chainParts]
      split
      · simp
      · simp
    rw [chainText, chainText, List.append_cancel_left_eq, hseparator] at htext
    have hparts := intercalate_inj hbefore (hne top labels) (hne top' labels')
      (chainParts_fit opts top hc fun label hlabel => hlabels label hlabel c hc)
      (chainParts_fit opts top' hc fun label hlabel => hlabels' label hlabel c hc) htext
    exact List.map_injective_iff.2 (fun _ _ => String.toList_inj.1) hparts
  · intro hparts
    rw [chainText, chainText, hparts]

/-- No path of one kind starts like one of the other. -/
def Apart (opts opts' : PathStringOptions) : Prop :=
  ¬ opts.pathPrefix.toList <+: opts'.pathPrefix.toList ∧ ¬ opts'.pathPrefix.toList <+: opts.pathPrefix.toList

instance : Std.Symm Apart where
  symm _ _ h := ⟨h.2, h.1⟩

theorem Apart.chainText_ne {opts opts' : PathStringOptions} (h : Apart opts opts') (top top' : Top)
    (labels labels' : List String) : chainText opts top labels ≠ chainText opts' top' labels' := by
  intro he
  have hpre : opts.pathPrefix.toList <+: chainText opts top labels := List.prefix_append _ _
  have hpre' : opts'.pathPrefix.toList <+: chainText opts top labels := by
    rw [he]
    exact List.prefix_append _ _
  rcases List.prefix_or_prefix_of_prefix hpre hpre' with hle | hle
  · exact h.1 hle
  · exact h.2 hle

/-- **The kinds of paths are told apart by their prefixes.** -/
theorem apart_optss (case : CheckedOutputOptionsMapCase) (evaluationOpts : EvaluationOpts) :
    (keyDetailsFor case evaluationOpts).optss.Pairwise Apart := by
  obtain ⟨showThreadNumber, showReversed⟩ := evaluationOpts
  cases case with
  | flame =>
    cases showThreadNumber with
    | false => exact List.pairwise_singleton _ _
    | true => exact List.pairwise_singleton _ _
  | excel =>
    have hprefixes : ["A:", "AR:", "N:", "NR:"].Pairwise fun s t : String =>
        ¬ s.toList <+: t.toList ∧ ¬ t.toList <+: s.toList := by decide
    have hsub : ((keyDetailsFor .excel ⟨showThreadNumber, showReversed⟩).optss.map PathStringOptions.pathPrefix).Sublist
        ["A:", "AR:", "N:", "NR:"] := by
      cases showThreadNumber with
      | false =>
        cases showReversed with
        | false => exact .cons_cons _ (List.nil_sublist _)
        | true => exact .cons_cons _ (.cons_cons _ (List.nil_sublist _))
      | true =>
        cases showReversed with
        | false => exact .cons_cons _ (.cons _ (.cons_cons _ (List.nil_sublist _)))
        | true => exact .refl _
    have hpairwise := hprefixes.sublist hsub
    rw [List.pairwise_map] at hpairwise
    exact hpairwise

end Evobench.Evaluator

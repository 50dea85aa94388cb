import Mathlib.Data.List.Induction

/-!
# Bracketed sequences with marks

Sequences over any type whose elements are openings and closings with a key, marks that have to be inside
of some opening, and elements that do not matter.

## The model

* `Balanced tok inside l`: everything opened in `l` is closed in it with its own key, nothing else is
  closed, and marks are inside of an opening in `l`, or anywhere if `inside` is true.
* `Pending tok st l`: the openings and marks `st` of `l` (the innermost one first) have not been closed
  yet, and everything else is balanced.
* `check`: the decision by a stack of keys.
* `scan`: what is pending, by a stack of elements.

## What is proved

* `Pending.close`: a closing element closes the innermost opening, and everything after that opening is
  balanced.
* `scan_eq_some_iff`: `scan` finds what is pending, so that this is determined by the sequence.
* `Balanced.around`: a mark is between an opening and its closing.
* `balanced_iff_check`: `check` decides whether a sequence is balanced.
-/

namespace Library

/-- What an element is. -/
inductive Token (κ : Type) where
  /-- It opens a scope. -/
  | opening (k : κ)
  /-- It closes a scope. -/
  | closing (k : κ)
  /-- It has to be inside of a scope, and lasts as long as that. -/
  | mark
  /-- It does not matter. -/
  | skip
deriving DecidableEq, Repr

namespace Token

variable {κ : Type}

/-- Whether something is open after the element. -/
def isOpener : Token κ → Bool
  | opening _ => true
  | mark => true
  | _ => false

/-- The key of an opening. -/
def openingKey : Token κ → Option κ
  | opening k => some k
  | _ => none

end Token

variable {α κ : Type} {tok : α → Token κ}

/-- Everything opened is closed with its own key, and nothing else is closed. -/
inductive Balanced (tok : α → Token κ) : Bool → List α → Prop where
  /-- Nothing. -/
  | nil {inside : Bool} : Balanced tok inside []
  /-- An element that does not matter. -/
  | skip {inside : Bool} {x : α} {l : List α} (hx : tok x = .skip) (hl : Balanced tok inside l) :
      Balanced tok inside (x :: l)
  /-- A mark. -/
  | mark {x : α} {l : List α} (hx : tok x = .mark) (hl : Balanced tok true l) : Balanced tok true (x :: l)
  /-- A scope. -/
  | scope {inside : Bool} {x y : α} {k : κ} {body l : List α} (hx : tok x = .opening k) (hbody : Balanced tok true body)
      (hy : tok y = .closing k) (hl : Balanced tok inside l) : Balanced tok inside (x :: (body ++ y :: l))

/-- The openings and marks `st`, the innermost one first, are still open at the end. -/
inductive Pending (tok : α → Token κ) : List α → List α → Prop where
  /-- Nothing is open. -/
  | nil {l : List α} (hl : Balanced tok false l) : Pending tok [] l
  /-- The last one that is open. -/
  | cons {st l l' : List α} {x : α} (h : Pending tok st l) (hx : (tok x).isOpener = true) (hl' : Balanced tok false l') :
      Pending tok (x :: st) (l ++ x :: l')

/-! ### Putting parts together -/

/-- Two elements of a sequence, one before the other. -/
theorem split_cases {x y : α} {a b c d : List α} (hne : x ≠ y) (h : a ++ x :: b = c ++ y :: d) :
    (∃ m, c = a ++ x :: m ∧ b = m ++ y :: d) ∨ ∃ m, a = c ++ y :: m ∧ d = m ++ x :: b := by
  rcases List.append_eq_append_iff.1 h with ⟨m, hc, hm⟩ | ⟨m, ha, hm⟩
  · rcases m with _ | ⟨z, m⟩
    · exact absurd (List.cons.inj hm).1 hne
    · obtain ⟨rfl, rfl⟩ := List.cons.inj hm
      exact .inl ⟨m, hc, rfl⟩
  · rcases m with _ | ⟨z, m⟩
    · exact absurd (List.cons.inj hm).1 hne.symm
    · obtain ⟨rfl, rfl⟩ := List.cons.inj hm
      exact .inr ⟨m, ha, rfl⟩

namespace Balanced

theorem append {inside : Bool} {l l' : List α} (h : Balanced tok inside l) (h' : Balanced tok inside l') :
    Balanced tok inside (l ++ l') := by
  induction h with
  | nil => exact h'
  | skip hx _ ih => exact .skip hx (ih h')
  | mark hx _ ih => exact .mark hx (ih h')
  | scope hx hbody hy _ _ ih =>
    rw [List.cons_append, List.append_assoc, List.cons_append]
    exact .scope hx hbody hy (ih h')

/-- What is balanced is balanced inside of a scope. -/
theorem inside {b : Bool} {l : List α} (h : Balanced tok b l) : Balanced tok true l := by
  induction h with
  | nil => exact .nil
  | skip hx _ ih => exact .skip hx ih
  | mark hx _ ih => exact .mark hx ih
  | scope hx hbody hy _ _ ih => exact .scope hx hbody hy ih

theorem singleton_skip {b : Bool} {x : α} (hx : tok x = .skip) : Balanced tok b [x] := .skip hx .nil

theorem of_skip {b : Bool} {l : List α} (h : ∀ x ∈ l, tok x = .skip) : Balanced tok b l := by
  induction l with
  | nil => exact .nil
  | cons x l ih => exact .skip (h x List.mem_cons_self) (ih fun y hy => h y (List.mem_cons_of_mem _ hy))

/-- Elements that do not matter may be left out, and others replaced by ones that are the same brackets. -/
theorem filterMap {β : Type} {tok' : β → Token κ} {f : α → Option β} (hnone : ∀ x, f x = none → tok x = .skip)
    (hsome : ∀ x y, f x = some y → tok' y = tok x) {b : Bool} {l : List α} (h : Balanced tok b l) :
    Balanced tok' b (l.filterMap f) := by
  have hexists : ∀ {x : α}, tok x ≠ .skip → ∃ y, f x = some y ∧ tok' y = tok x := by
    intro x hx
    obtain ⟨y, hy⟩ := Option.ne_none_iff_exists'.1 fun he => hx (hnone x he)
    exact ⟨y, hy, hsome x y hy⟩
  induction h with
  | nil => exact .nil
  | @skip inside x l hx _ ih =>
    rw [List.filterMap_cons]
    cases hfx : f x with
    | none => exact ih
    | some y => exact .skip (by rw [hsome x y hfx, hx]) ih
  | @mark x l hx _ ih =>
    obtain ⟨y, hy, htok⟩ := hexists (by rw [hx]; simp)
    rw [List.filterMap_cons, hy]
    exact .mark (by rw [htok, hx]) ih
  | @scope inside x y k body l hx _ hy _ ihbody ih =>
    obtain ⟨x', hx', htokx⟩ := hexists (x := x) (by rw [hx]; simp)
    obtain ⟨y', hy', htoky⟩ := hexists (x := y) (by rw [hy]; simp)
    rw [List.filterMap_cons, hx', List.filterMap_append, List.filterMap_cons, hy']
    exact .scope (by rw [htokx, hx]) ihbody (by rw [htoky, hy]) ih

/-- Brackets by what elements are mapped to. -/
theorem of_map {β : Type} {f : β → α} {b : Bool} {l : List β} (h : Balanced tok b (l.map f)) :
    Balanced (fun x => tok (f x)) b l := by
  generalize hl : l.map f = l' at h
  induction h generalizing l with
  | nil =>
    rw [List.map_eq_nil_iff.1 hl]
    exact .nil
  | skip hx _ ih =>
    obtain ⟨x, l, rfl, rfl, hrest⟩ := List.map_eq_cons_iff.1 hl
    exact .skip hx (ih hrest)
  | mark hx _ ih =>
    obtain ⟨x, l, rfl, rfl, hrest⟩ := List.map_eq_cons_iff.1 hl
    exact .mark hx (ih hrest)
  | scope hx _ hy _ ihbody ih =>
    obtain ⟨x, l, rfl, rfl, hinner⟩ := List.map_eq_cons_iff.1 hl
    obtain ⟨body, l, rfl, hbody, hend⟩ := List.map_eq_append_iff.1 hinner
    obtain ⟨y, l, rfl, rfl, hrest⟩ := List.map_eq_cons_iff.1 hend
    exact .scope hx (ihbody hbody) hy (ih hrest)

/-- **Around a mark** of a balanced sequence there are an opening and its closing, unless the sequence itself is
inside of a scope. -/
theorem around {inside : Bool} {l a c : List α} {x : α} (h : Balanced tok inside l) (hl : l = a ++ x :: c)
    (hx : tok x = .mark) :
    (∃ a' o body body' y c' k, a = a' ++ o :: body ∧ c = body' ++ y :: c' ∧ tok o = .opening k ∧ tok y = .closing k ∧
      Balanced tok true body ∧ Balanced tok true body') ∨
      (inside = true ∧ Balanced tok true a ∧ Balanced tok true c) := by
  induction h generalizing a c with
  | nil =>
    cases a with
    | nil => cases hl
    | cons z a => cases hl
  | @skip inside z l hz _ ih =>
    cases a with
    | nil =>
      obtain ⟨rfl, rfl⟩ := List.cons.inj hl
      rw [hx] at hz
      cases hz
    | cons w a =>
      obtain ⟨rfl, rfl⟩ := List.cons.inj hl
      rcases ih rfl with ⟨a', o, body, body', y, c', k, rfl, hrest⟩ | ⟨hinside, ha, hc⟩
      · exact .inl ⟨z :: a', o, body, body', y, c', k, rfl, hrest⟩
      · exact .inr ⟨hinside, .skip hz ha, hc⟩
  | @mark z l hz hl' ih =>
    cases a with
    | nil =>
      obtain ⟨rfl, rfl⟩ := List.cons.inj hl
      exact .inr ⟨rfl, .nil, hl'⟩
    | cons w a =>
      obtain ⟨rfl, rfl⟩ := List.cons.inj hl
      rcases ih rfl with ⟨a', o, body, body', y, c', k, rfl, hrest⟩ | ⟨-, ha, hc⟩
      · exact .inl ⟨z :: a', o, body, body', y, c', k, rfl, hrest⟩
      · exact .inr ⟨rfl, .mark hz ha, hc⟩
  | @scope inside o y k body l ho hbody hy hl' ihbody ih =>
    cases a with
    | nil =>
      obtain ⟨rfl, -⟩ := List.cons.inj hl
      rw [hx] at ho
      cases ho
    | cons w a =>
      obtain ⟨rfl, he⟩ := List.cons.inj hl
      have hne : y ≠ x := by
        rintro rfl
        rw [hx] at hy
        cases hy
      rcases split_cases hne he with ⟨d, rfl, rfl⟩ | ⟨d, rfl, rfl⟩
      · -- The mark is after the scope.
        rcases ih rfl with ⟨a', o', body', body'', y', c', k', rfl, hrest⟩ | ⟨hinside, ha, hc⟩
        · refine .inl ⟨o :: (body ++ y :: a'), o', body', body'', y', c', k', ?_, hrest⟩
          rw [List.cons_append, List.append_assoc, List.cons_append]
        · exact .inr ⟨hinside, .scope ho hbody hy ha, hc⟩
      · -- The mark is in the scope.
        rcases ihbody rfl with ⟨a', o', body', body'', y', c', k', rfl, rfl, hrest⟩ | ⟨-, ha, hc⟩
        · refine .inl ⟨o :: a', o', body', body'', y', c' ++ y :: l, k', rfl, ?_, hrest⟩
          rw [List.append_assoc, List.cons_append]
        · exact .inl ⟨[], o, a, d, y, l, k, rfl, rfl, ho, hy, ha, hc⟩

end Balanced

namespace Pending

/-- Balanced parts may follow. -/
theorem append {st l l' : List α} (h : Pending tok st l) (h' : Balanced tok false l') : Pending tok st (l ++ l') := by
  cases h with
  | nil hl => exact .nil (hl.append h')
  | cons hst hx hl =>
    rw [List.append_assoc, List.cons_append]
    exact .cons hst hx (hl.append h')

/-- Something is opened. -/
theorem push {st l : List α} {x : α} (h : Pending tok st l) (hx : (tok x).isOpener = true) :
    Pending tok (x :: st) (l ++ [x]) := .cons h hx .nil

/-- What is open is in the sequence. -/
theorem mem {st l : List α} (h : Pending tok st l) {x : α} (hx : x ∈ st) : x ∈ l := by
  induction h with
  | nil hl => cases hx
  | cons _ _ _ ih =>
    rcases List.mem_cons.1 hx with rfl | hx
    · simp
    · exact List.mem_append_left _ (ih hx)

theorem isOpener {st l : List α} (h : Pending tok st l) {x : α} (hx : x ∈ st) : (tok x).isOpener = true := by
  induction h with
  | nil hl => cases hx
  | cons _ hx' _ ih =>
    rcases List.mem_cons.1 hx with rfl | hx
    · exact hx'
    · exact ih hx

/-- Below the marks that are open, everything after an opening is balanced. -/
theorem split {marks st l : List α} {x : α} (h : Pending tok (marks ++ x :: st) l)
    (hmarks : ∀ m ∈ marks, tok m = .mark) :
    ∃ a body, l = a ++ x :: body ∧ Balanced tok true body ∧ Pending tok st a := by
  induction marks generalizing l with
  | nil =>
    cases h with
    | @cons _ a body _ hst hx hl => exact ⟨a, body, rfl, hl.inside, hst⟩
  | cons m marks ih =>
    cases h with
    | @cons _ l₁ l' _ hst hx hl =>
      obtain ⟨a, body, rfl, hbody, ha⟩ := ih hst fun m' hm' => hmarks m' (List.mem_cons_of_mem _ hm')
      refine ⟨a, body ++ m :: l', ?_, ?_, ha⟩
      · rw [List.append_assoc, List.cons_append]
      · exact hbody.append (.mark (hmarks m List.mem_cons_self) hl.inside)

/-- **Closing the innermost opening.** -/
theorem close {marks st l : List α} {x y : α} {k : κ} (h : Pending tok (marks ++ x :: st) l)
    (hmarks : ∀ m ∈ marks, tok m = .mark) (hx : tok x = .opening k) (hy : tok y = .closing k) :
    Pending tok st (l ++ [y]) := by
  obtain ⟨a, body, rfl, hbody, ha⟩ := h.split hmarks
  rw [List.append_assoc, List.cons_append]
  exact ha.append (.scope hx hbody hy .nil)

end Pending

/-! ### The decision by a stack -/

section Check

variable [DecidableEq κ] (tok)

/-- Whether the rest of a sequence closes the scopes with the given keys, the innermost one first, and is balanced
otherwise. -/
def check : List κ → List α → Bool
  | st, [] => st.isEmpty
  | st, x :: l =>
    match tok x with
    | .opening k => check (k :: st) l
    | .closing k =>
      match st with
      | [] => false
      | k' :: st => k = k' && check st l
    | .mark => !st.isEmpty && check st l
    | .skip => check st l

variable {tok}

theorem check_opening {x : α} {k : κ} (hx : tok x = .opening k) (st : List κ) (l : List α) :
    check tok st (x :: l) = check tok (k :: st) l := by simp only [check, hx]

theorem check_closing {x : α} {k : κ} (hx : tok x = .closing k) (st : List κ) (l : List α) :
    check tok (k :: st) (x :: l) = check tok st l := by simp [check, hx]

theorem check_mark {x : α} (hx : tok x = .mark) (st : List κ) (l : List α) :
    check tok st (x :: l) = true ↔ st ≠ [] ∧ check tok st l = true := by simp [check, hx]

theorem check_skip {x : α} (hx : tok x = .skip) (st : List κ) (l : List α) :
    check tok st (x :: l) = check tok st l := by simp only [check, hx]

/-- A closing element has the key of the innermost open scope. -/
theorem eq_of_check_closing {x : α} {k : κ} {st : List κ} {l : List α} (hx : tok x = .closing k)
    (h : check tok st (x :: l) = true) : ∃ st', st = k :: st' := by
  cases st with
  | nil => simp [check, hx] at h
  | cons k' st =>
    simp only [check, hx, Bool.and_eq_true, decide_eq_true_eq] at h
    exact ⟨st, by rw [h.1]⟩

/-- `check` reads over what is balanced. -/
theorem Balanced.check {b : Bool} {l : List α} (h : Balanced tok b l) {st : List κ} (hst : b = true → st ≠ [])
    (rest : List α) : check tok st (l ++ rest) = Library.check tok st rest := by
  induction h generalizing st rest with
  | nil => rfl
  | skip hx _ ih => rw [List.cons_append, check_skip hx, ih hst]
  | mark hx _ ih =>
    rw [List.cons_append, Bool.eq_iff_iff, check_mark hx, ih hst]
    exact and_iff_right (hst rfl)
  | scope hx _ hy _ ihbody ih =>
    rw [List.cons_append, List.append_assoc, check_opening hx, ihbody (fun _ => List.cons_ne_nil _ _),
      List.cons_append, check_closing hy, ih hst]

/-- The keys of the scopes that are open. -/
def openKeys (tok : α → Token κ) (st : List α) : List κ := st.filterMap fun x => (tok x).openingKey

/-- `check` reads over what is pending: the rest has to close that, and there are no marks outside of scopes. -/
theorem Pending.check {st l rest : List α} (h : Pending tok st l) (hcheck : Library.check tok [] (l ++ rest) = true) :
    Library.check tok (openKeys tok st) rest = true ∧ (openKeys tok st = [] → st = []) := by
  induction h generalizing rest with
  | nil hl =>
    rw [hl.check (by simp)] at hcheck
    exact ⟨hcheck, fun _ => rfl⟩
  | @cons st l l' x h hx hl' ih =>
    rw [List.append_assoc, List.cons_append] at hcheck
    obtain ⟨hrest, -⟩ := ih hcheck
    cases htok : tok x with
    | opening k =>
      have hkeys : openKeys tok (x :: st) = k :: openKeys tok st := by simp [openKeys, htok, Token.openingKey]
      rw [check_opening htok, hl'.check (by simp)] at hrest
      rw [hkeys]
      exact ⟨hrest, fun he => absurd he (List.cons_ne_nil _ _)⟩
    | mark =>
      have hkeys : openKeys tok (x :: st) = openKeys tok st := by simp [openKeys, htok, Token.openingKey]
      obtain ⟨hne, hrest⟩ := (check_mark htok _ _).1 hrest
      rw [hl'.check (by simp)] at hrest
      rw [hkeys]
      exact ⟨hrest, fun he => absurd he hne⟩
    | closing k =>
      rw [htok] at hx
      cases hx
    | skip =>
      rw [htok] at hx
      cases hx

/-- A balanced sequence passes the check. -/
theorem Balanced.check_nil {l : List α} (h : Balanced tok false l) : Library.check tok [] l = true := by
  have hempty : false = true → ([] : List κ) ≠ [] := by simp
  have := h.check hempty []
  rw [List.append_nil] at this
  rw [this]
  rfl

omit [DecidableEq κ] in
/-- If the innermost open scope has a key, then below some marks there is the opening. -/
theorem exists_split_of_openKeys {st : List α} {k : κ} {ks : List κ} (h : openKeys tok st = k :: ks)
    (hopen : ∀ x ∈ st, (tok x).isOpener = true) :
    ∃ marks x st', st = marks ++ x :: st' ∧ (∀ m ∈ marks, tok m = .mark) ∧ tok x = .opening k := by
  induction st with
  | nil => cases h
  | cons x st ih =>
    cases htok : tok x with
    | opening k' =>
      have hkeys : k' :: openKeys tok st = k :: ks := by simpa [openKeys, htok, Token.openingKey] using h
      exact ⟨[], x, st, rfl, by simp, by rw [htok, (List.cons.inj hkeys).1]⟩
    | mark =>
      have h' : openKeys tok st = k :: ks := by simpa [openKeys, htok, Token.openingKey] using h
      obtain ⟨marks, y, st', rfl, hmarks, hy⟩ := ih h' fun z hz => hopen z (List.mem_cons_of_mem _ hz)
      refine ⟨x :: marks, y, st', rfl, ?_, hy⟩
      intro m hm
      rcases List.mem_cons.1 hm with rfl | hm
      · exact htok
      · exact hmarks m hm
    | closing k' =>
      have := hopen x List.mem_cons_self
      rw [htok] at this
      cases this
    | skip =>
      have := hopen x List.mem_cons_self
      rw [htok] at this
      cases this

/-- What passes the check can be read to its end. -/
theorem Pending.of_check {st l rest : List α} (h : Pending tok st l) (hcheck : Library.check tok [] (l ++ rest) = true) :
    ∃ st', Pending tok st' (l ++ rest) := by
  induction rest generalizing st l with
  | nil => exact ⟨st, by rwa [List.append_nil]⟩
  | cons x rest ih =>
    obtain ⟨hkeys, -⟩ := h.check hcheck
    have hnext : ∃ st', Pending tok st' (l ++ [x]) := by
      cases htok : tok x with
      | opening k => exact ⟨_, h.push (by rw [htok]; rfl)⟩
      | mark => exact ⟨_, h.push (by rw [htok]; rfl)⟩
      | skip => exact ⟨_, h.append (.singleton_skip htok)⟩
      | closing k =>
        obtain ⟨ks, hks⟩ := eq_of_check_closing htok hkeys
        obtain ⟨marks, y, st', rfl, hmarks, hy⟩ := exists_split_of_openKeys hks fun z hz => h.isOpener hz
        exact ⟨st', h.close hmarks hy htok⟩
    obtain ⟨st', hst'⟩ := hnext
    rw [show l ++ x :: rest = (l ++ [x]) ++ rest by simp] at hcheck ⊢
    exact ih hst' hcheck

/-- **`check` decides whether a sequence is balanced.** -/
theorem balanced_iff_check {l : List α} : Balanced tok false l ↔ check tok [] l = true := by
  constructor
  · exact Balanced.check_nil
  · intro h
    obtain ⟨st, hst⟩ : ∃ st, Pending tok st ([] ++ l) := Pending.of_check (.nil .nil) h
    have hend : check tok (openKeys tok st) [] = true ∧ (openKeys tok st = [] → st = []) :=
      hst.check (by rwa [List.append_nil])
    obtain rfl := hend.2 (by simpa [check] using hend.1)
    cases hst with
    | nil hl => exact hl

instance (l : List α) : Decidable (Balanced tok false l) := decidable_of_iff _ balanced_iff_check.symm

/-! ### What is pending, by a stack -/

variable (tok)

/-- Close the innermost opening, below some marks, if it has the key. -/
def popTo (k : κ) : List α → Option (List α)
  | [] => none
  | x :: st =>
    match tok x with
    | .opening k' => if k' = k then some st else none
    | _ => popTo k st

/-- What is open after one more element. -/
def scanStep (st : List α) (x : α) : Option (List α) :=
  match tok x with
  | .opening _ => some (x :: st)
  | .closing k => popTo tok k st
  | .mark => some (x :: st)
  | .skip => some st

/-- What is open after the elements. -/
def scan (st : List α) (l : List α) : Option (List α) := l.foldlM (scanStep tok) st

variable {tok}

@[simp] theorem scan_nil (st : List α) : scan tok st [] = some st := rfl

theorem scan_cons (st : List α) (x : α) (l : List α) :
    scan tok st (x :: l) = (scanStep tok st x).bind fun st' => scan tok st' l := by
  rw [scan, List.foldlM_cons]
  rfl

theorem scan_append (st l l' : List α) : scan tok st (l ++ l') = (scan tok st l).bind fun st' => scan tok st' l' := by
  rw [scan, List.foldlM_append]
  rfl

theorem scan_snoc (st l : List α) (x : α) :
    scan tok st (l ++ [x]) = (scan tok st l).bind fun st' => scanStep tok st' x := by
  simp [scan_append, scan_cons]

theorem popTo_append {k : κ} {marks st : List α} {x : α} (hmarks : ∀ m ∈ marks, tok m = .mark)
    (hx : tok x = .opening k) : popTo tok k (marks ++ x :: st) = some st := by
  induction marks with
  | nil => simp [popTo, hx]
  | cons m marks ih =>
    rw [List.cons_append, popTo, hmarks m List.mem_cons_self]
    exact ih fun m' hm' => hmarks m' (List.mem_cons_of_mem _ hm')

theorem popTo_marks {k : κ} {marks : List α} (hmarks : ∀ m ∈ marks, tok m = .mark) : popTo tok k marks = none := by
  induction marks with
  | nil => rfl
  | cons m marks ih =>
    rw [popTo, hmarks m List.mem_cons_self]
    exact ih fun m' hm' => hmarks m' (List.mem_cons_of_mem _ hm')

/-- Below the marks that are open, `popTo` finds an opening with the key. -/
theorem exists_of_popTo {k : κ} {st st' : List α} (h : popTo tok k st = some st')
    (hopen : ∀ x ∈ st, (tok x).isOpener = true) :
    ∃ marks x, st = marks ++ x :: st' ∧ (∀ m ∈ marks, tok m = .mark) ∧ tok x = .opening k := by
  induction st with
  | nil => cases h
  | cons x st ih =>
    have hx := hopen x List.mem_cons_self
    cases htok : tok x with
    | opening k' =>
      simp only [popTo, htok, Option.ite_none_right_eq_some, Option.some.injEq] at h
      obtain ⟨rfl, rfl⟩ := h
      exact ⟨[], x, rfl, by simp, htok⟩
    | mark =>
      simp only [popTo, htok] at h
      obtain ⟨marks, y, rfl, hmarks, hy⟩ := ih h fun z hz => hopen z (List.mem_cons_of_mem _ hz)
      refine ⟨x :: marks, y, rfl, ?_, hy⟩
      intro m hm
      rcases List.mem_cons.1 hm with rfl | hm
      · exact htok
      · exact hmarks m hm
    | closing k' =>
      rw [htok] at hx
      cases hx
    | skip =>
      rw [htok] at hx
      cases hx

/-- What is balanced leaves marks at most. -/
theorem Balanced.scan {b : Bool} {l : List α} (h : Balanced tok b l) :
    ∃ marks, (∀ m ∈ marks, tok m = .mark) ∧ (b = false → marks = []) ∧
      ∀ st, Library.scan tok st l = some (marks ++ st) := by
  induction h with
  | nil => exact ⟨[], by simp, fun _ => rfl, fun st => rfl⟩
  | skip hx _ ih =>
    obtain ⟨marks, hmarks, hb, hscan⟩ := ih
    refine ⟨marks, hmarks, hb, fun st => ?_⟩
    rw [scan_cons, scanStep, hx]
    exact hscan st
  | @mark x l hx _ ih =>
    obtain ⟨marks, hmarks, -, hscan⟩ := ih
    refine ⟨marks ++ [x], ?_, fun he => absurd he (by decide), fun st => ?_⟩
    · intro m hm
      rcases List.mem_append.1 hm with hm | hm
      · exact hmarks m hm
      · rw [List.mem_singleton.1 hm, hx]
    · rw [scan_cons, scanStep, hx, List.append_assoc]
      exact hscan (x :: st)
  | @scope b x y k body l hx _ hy _ ihbody ih =>
    obtain ⟨marks, hmarks, -, hscan⟩ := ihbody
    obtain ⟨marks', hmarks', hb', hscan'⟩ := ih
    refine ⟨marks', hmarks', hb', fun st => ?_⟩
    have hclose : Library.scan tok (marks ++ x :: st) (y :: l) = Library.scan tok st l := by
      rw [scan_cons, scanStep, hy]
      simp only [popTo_append hmarks hx, Option.bind_some]
    have hopen : Library.scan tok st (x :: (body ++ y :: l)) = Library.scan tok (x :: st) (body ++ y :: l) := by
      rw [scan_cons, scanStep, hx]
      rfl
    rw [hopen, scan_append, hscan, Option.bind_some, hclose, hscan']

theorem scanStep_opener {x : α} (hx : (tok x).isOpener = true) (st : List α) : scanStep tok st x = some (x :: st) := by
  unfold scanStep
  cases htok : tok x with
  | opening k => rfl
  | mark => rfl
  | closing k =>
    rw [htok] at hx
    cases hx
  | skip =>
    rw [htok] at hx
    cases hx

/-- **`scan` finds what is pending.** -/
theorem scan_eq_some_iff {st l : List α} : scan tok [] l = some st ↔ Pending tok st l := by
  constructor
  · induction l using List.reverseRecOn generalizing st with
    | nil =>
      intro h
      cases h
      exact .nil .nil
    | append_singleton l x ih =>
      intro h
      rw [scan_snoc, Option.bind_eq_some_iff] at h
      obtain ⟨st₀, hst₀, hstep⟩ := h
      have hpending := ih hst₀
      cases htok : tok x with
      | opening k =>
        rw [scanStep_opener (by rw [htok]; rfl)] at hstep
        cases hstep
        exact hpending.push (by rw [htok]; rfl)
      | mark =>
        rw [scanStep_opener (by rw [htok]; rfl)] at hstep
        cases hstep
        exact hpending.push (by rw [htok]; rfl)
      | skip =>
        simp only [scanStep, htok] at hstep
        cases hstep
        exact hpending.append (.singleton_skip htok)
      | closing k =>
        simp only [scanStep, htok] at hstep
        obtain ⟨marks, y, rfl, hmarks, hy⟩ := exists_of_popTo hstep fun z hz => hpending.isOpener hz
        exact hpending.close hmarks hy htok
  · intro h
    induction h with
    | nil hl =>
      obtain ⟨marks, -, hmarks, hscan⟩ := hl.scan
      rw [hscan, hmarks rfl, List.append_nil]
    | cons _ hx hl' ih =>
      obtain ⟨marks, -, hmarks, hscan⟩ := hl'.scan
      rw [scan_append, ih, Option.bind_some, scan_cons, scanStep_opener hx, Option.bind_some, hscan, hmarks rfl,
        List.nil_append]

/-- What is balanced does not reach over an element that closes something around it. -/
theorem Balanced.within {inside : Bool} {body rest l m : List α} {y : α} {k : κ} (hbody : Balanced tok true body)
    (hy : tok y = .closing k) (hl : Balanced tok inside l) (h : body ++ y :: rest = l ++ m) :
    ∃ d, body = l ++ d ∧ m = d ++ y :: rest := by
  rcases List.append_eq_append_iff.1 h with ⟨d, rfl, hd⟩ | ⟨d, rfl, rfl⟩
  · rcases d with _ | ⟨z, d⟩
    · exact ⟨[], by simp, by simpa using hd.symm⟩
    · -- Only marks are open at the closing element.
      obtain ⟨rfl, rfl⟩ := List.cons.inj hd
      obtain ⟨marks, hmarks, -, hscan⟩ := hbody.scan
      obtain ⟨marks', -, -, hscan'⟩ := hl.scan
      have he := hscan' []
      rw [scan_append, hscan, Option.bind_some, scan_cons, scanStep, hy, List.append_nil] at he
      simp only [popTo_marks hmarks, Option.bind_none] at he
      cases he
  · exact ⟨d, rfl, rfl⟩

/-- The closing of a scope is determined by the sequence. -/
theorem Balanced.closing_unique {body rest body' rest' : List α} {y y' : α} {k k' : κ} (hbody : Balanced tok true body)
    (hy : tok y = .closing k) (hbody' : Balanced tok true body') (hy' : tok y' = .closing k')
    (h : body ++ y :: rest = body' ++ y' :: rest') : body = body' ∧ y = y' := by
  obtain ⟨d, rfl, hd⟩ := hbody.within hy hbody' h
  obtain ⟨d', hd', -⟩ := hbody'.within hy' hbody h.symm
  obtain rfl : d = [] := by
    have := congrArg List.length hd'
    simp only [List.length_append] at this
    exact List.eq_nil_of_length_eq_zero (by omega)
  exact ⟨List.append_nil _, (List.cons.inj hd).1.symm⟩

/-- What is pending is determined by the sequence. -/
theorem Pending.unique {st st' l : List α} (h : Pending tok st l) (h' : Pending tok st' l) : st = st' :=
  Option.some.inj ((scan_eq_some_iff.2 h).symm.trans (scan_eq_some_iff.2 h'))

end Check

end Library

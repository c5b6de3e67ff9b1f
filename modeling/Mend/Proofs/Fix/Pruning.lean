import Mend.Proofs.Idiom.Imports

/-!
# What a pruning leaves of each line

A pruning decides line by line, on what is left of the lines above and on the lines below as they
are. So a specifier that is dropped is mentioned neither above nor below, and what is done further
down brings in no name.

* `Row`: a line with what is left of it; `pruneRows`: the rows of a pruning.
* `left_of_pruneRows`: what is left of a line depends on what was left above it.
* `pruneImports_rows`: the text and the changes of a pruning are those of its rows.
* `pruneImports_keeps_needed`: an import keeps the specifiers that other lines mention, in order,
  and no other line of the pruned text mentions one that was dropped.
-/

namespace Mend.Fix

open Text Idiom

/-! ## Rows -/

/-- A line of a text, with what a pruning leaves of it. -/
structure Row where
  line : Text
  left : Option Text
  deriving DecidableEq

/-- What is left of some lines. -/
def Row.leftovers (rows : List Row) : List Text := rows.filterMap Row.left

/-- What the changes of lines say, of which the first has the number `n`: the number of each line
that is not left as it is, the line, and what is left of it. -/
def Row.changed (n : Nat) : List Row → List (Int × Option Text × Option Text)
  | [] => []
  | row :: rows =>
    if row.left = some row.line then changed (n + 1) rows
    else (n, some row.line, row.left) :: changed (n + 1) rows

/-- The specifiers of an import that other lines mention. -/
def neededSpecifiers (l : ImportLine) (others : List Text) : List Text :=
  (importSpecifiers l.inside).filter fun s => others.any (mentions (boundName s))

/-- What a pruning leaves of a line among others. -/
def leftOf (line : Text) (others : List Text) : Option Text :=
  match importLine? line with
  | none => some line
  | some l =>
    let needed := neededSpecifiers l others
    if needed = importSpecifiers l.inside then some line
    else if needed = [] then none
    else some (importOf l needed)

/-- The rows of a pruning that goes on below the lines that are left above. -/
def pruneRows (above : List Text) : List Text → List Row
  | [] => []
  | line :: below =>
    let left := leftOf line (above ++ below)
    ⟨line, left⟩ :: pruneRows (above ++ left.toList) below

@[simp] theorem Row.leftovers_nil : leftovers [] = [] := rfl

@[simp] theorem Row.leftovers_cons (row : Row) (rows : List Row) :
    leftovers (row :: rows) = row.left.toList ++ leftovers rows := by
  rw [leftovers, List.filterMap_cons]
  cases row.left <;> rfl

@[simp] theorem Row.leftovers_append (rows rows' : List Row) :
    leftovers (rows ++ rows') = leftovers rows ++ leftovers rows' := List.filterMap_append

theorem map_line_pruneRows (above ls : List Text) : (pruneRows above ls).map Row.line = ls := by
  induction ls generalizing above with
  | nil => rfl
  | cons line below ih => rw [pruneRows, List.map_cons, ih]

/-- **What is left of a line depends on what was left above it** and on the lines below. -/
theorem left_of_pruneRows {above ls : List Text} {before after : List Row} {row : Row}
    (h : pruneRows above ls = before ++ row :: after) :
    row.left = leftOf row.line (above ++ Row.leftovers before ++ after.map Row.line) := by
  induction before generalizing above ls with
  | nil =>
    cases ls with
    | nil => cases h
    | cons line below =>
      obtain ⟨rfl, rfl⟩ := List.cons.inj h
      rw [map_line_pruneRows, Row.leftovers_nil, List.append_nil]
  | cons first before ih =>
    cases ls with
    | nil => cases h
    | cons line below =>
      obtain ⟨rfl, hrest⟩ := List.cons.inj h
      rw [ih hrest, Row.leftovers_cons, List.append_assoc above]

/-! ## What is left of one line -/

variable {line : Text} {l : ImportLine} {others : List Text}

theorem mem_neededSpecifiers {s : Text} : s ∈ neededSpecifiers l others ↔
    s ∈ importSpecifiers l.inside ∧ ∃ other ∈ others, mentions (boundName s) other := by
  rw [neededSpecifiers, List.mem_filter, List.any_eq_true]

theorem mem_of_mem_neededSpecifiers {s : Text} (h : s ∈ neededSpecifiers l others) :
    s ∈ importSpecifiers l.inside := (mem_neededSpecifiers.mp h).1

theorem leftOf_of_none (h : importLine? line = none) : leftOf line others = some line := by
  rw [leftOf, h]

section Import

variable (h : importLine? line = some l)

include h

theorem leftOf_of_all (all : neededSpecifiers l others = importSpecifiers l.inside) :
    leftOf line others = some line := by
  rw [leftOf, h]
  exact if_pos all

theorem leftOf_of_nothing (ne_all : neededSpecifiers l others ≠ importSpecifiers l.inside)
    (nothing : neededSpecifiers l others = []) : leftOf line others = none := by
  rw [leftOf, h]
  exact (if_neg ne_all).trans (if_pos nothing)

theorem leftOf_of_some (ne_all : neededSpecifiers l others ≠ importSpecifiers l.inside)
    (nonempty : neededSpecifiers l others ≠ []) :
    leftOf line others = some (importOf l (neededSpecifiers l others)) := by
  rw [leftOf, h]
  exact (if_neg ne_all).trans (if_neg nonempty)

end Import

/-- What becomes of an import of which some specifiers are needed. -/
inductive Outcome (row : Row) (l : ImportLine) (needed : List Text) : Prop
  /-- If all are, the line stays as it is. -/
  | stays (all : needed = importSpecifiers l.inside) (left : row.left = some row.line)
  /-- If some are, the line is cut at the same braces, and these specifiers stand between them. -/
  | shortened {new : Text} {l' : ImportLine} (ne_all : needed ≠ importSpecifiers l.inside)
      (nonempty : needed ≠ []) (left : row.left = some new) (import_eq : importLine? new = some l')
      (head_eq : l'.head = l.head) (tail_eq : l'.tail = l.tail)
      (specifiers_eq : importSpecifiers l'.inside = needed)
  /-- If none is, the line is taken away. -/
  | removed (ne_all : needed ≠ importSpecifiers l.inside) (none : needed = [])
      (left : row.left = .none)

theorem outcome_of_leftOf (row : Row) (h : importLine? row.line = some l)
    (left : row.left = leftOf row.line others) : Outcome row l (neededSpecifiers l others) := by
  have hneeded : ∀ s ∈ neededSpecifiers l others, s ∈ importSpecifiers l.inside :=
    fun s => mem_of_mem_neededSpecifiers
  by_cases ne_all : neededSpecifiers l others = importSpecifiers l.inside
  · exact .stays ne_all (left.trans (leftOf_of_all h ne_all))
  · by_cases nothing : neededSpecifiers l others = []
    · exact .removed ne_all nothing (left.trans (leftOf_of_nothing h ne_all nothing))
    · exact .shortened ne_all nothing (left.trans (leftOf_of_some h ne_all nothing))
        (importLine?_importOf h hneeded) rfl rfl (importSpecifiers_writtenInside hneeded nothing)

/-- The import that is left of a line has the specifiers that are needed. -/
theorem importLine?_of_leftOf {new : Text} {l' : ImportLine} (left : leftOf line others = some new)
    (h' : importLine? new = some l') :
    ∃ l, importLine? line = some l ∧ importSpecifiers l'.inside = neededSpecifiers l others := by
  cases h : importLine? line with
  | none =>
    rw [leftOf_of_none h] at left
    rw [Option.some.inj left, h'] at h
    cases h
  | some l =>
    refine ⟨l, rfl, ?_⟩
    cases outcome_of_leftOf ⟨line, some new⟩ h left.symm with
    | stays all same =>
      obtain rfl := Option.some.inj same
      rw [all, Option.some.inj (h'.symm.trans h)]
    | shortened _ _ same import_eq _ _ specifiers_eq =>
      obtain rfl := Option.some.inj same
      rw [← specifiers_eq, Option.some.inj (h'.symm.trans import_eq)]
    | removed _ _ same => cases same

/-- An import is left of a line as long as one specifier is needed. -/
theorem exists_leftOf (h : importLine? line = some l) (needed : neededSpecifiers l others ≠ []) :
    ∃ new l', leftOf line others = some new ∧ importLine? new = some l' ∧
      importSpecifiers l'.inside = neededSpecifiers l others := by
  cases outcome_of_leftOf ⟨line, leftOf line others⟩ h rfl with
  | stays all left => exact ⟨line, l, left, h, all.symm⟩
  | shortened _ _ left import_eq _ _ specifiers_eq => exact ⟨_, _, left, import_eq, specifiers_eq⟩
  | removed _ none _ => exact absurd none needed

/-- What is left of a line mentions no name that the line did not mention. -/
theorem mentions_of_leftOf {new name : Text} (h : leftOf line others = some new)
    (hname : IsName name) (hmentions : mentions name new) : mentions name line := by
  cases hl : importLine? line with
  | none =>
    rw [leftOf_of_none hl] at h
    exact Option.some.inj h ▸ hmentions
  | some l =>
    have hneeded : ∀ s ∈ neededSpecifiers l others, s ∈ importSpecifiers l.inside :=
      fun s => mem_of_mem_neededSpecifiers
    by_cases ne_all : neededSpecifiers l others = importSpecifiers l.inside
    · rw [leftOf_of_all hl ne_all] at h
      exact Option.some.inj h ▸ hmentions
    · by_cases nothing : neededSpecifiers l others = []
      · rw [leftOf_of_nothing hl ne_all nothing] at h
        cases h
      · rw [leftOf_of_some hl ne_all nothing] at h
        obtain rfl := Option.some.inj h
        exact mentions_of_mentions_importOf hl hneeded nothing hname hmentions

/-! ## The course of a pruning -/

theorem usedSpecifiers_eq (l : ImportLine) (others : List Text) :
    usedSpecifiers (importSpecifiers l.inside) (unlines others) = neededSpecifiers l others := by
  refine List.filter_congr fun s hs => ?_
  rw [Bool.eq_iff_iff, mentions_unlines_iff (boundName_of_mem_importSpecifiers hs).1
    (newline_outside_boundName hs), List.any_eq_true]

namespace Pruning

/-- What a change says: the number of the line, the line, and what is left of it. -/
def said (c : Change) : Int × Option Text × Option Text := (c.line, c.before, c.after)

variable (s : Pruning) (number : Nat) (line : Text) (after : List Text)

/-- **A step leaves of its line what the other lines leave of it**, and records it unless it is the
line. -/
theorem step_left :
    let left := leftOf line (s.kept.reverse ++ after)
    (s.step number line after).kept = left.toList ++ s.kept ∧
    (s.step number line after).changes.map said =
      if left = some line then s.changes.map said
      else (number, some line, left) :: s.changes.map said := by
  dsimp only
  rw [step]
  cases hl : importLine? line with
  | none => simp [leftOf_of_none hl]
  | some l =>
    have hneeded : ∀ x ∈ neededSpecifiers l (s.kept.reverse ++ after),
        x ∈ importSpecifiers l.inside := fun x => mem_of_mem_neededSpecifiers
    have hall : (importSpecifiers l.inside).length -
        (neededSpecifiers l (s.kept.reverse ++ after)).length = 0 ↔
          neededSpecifiers l (s.kept.reverse ++ after) = importSpecifiers l.inside := by
      rw [Nat.sub_eq_zero_iff_le]
      exact ⟨List.filter_sublist.eq_of_length_le, fun h => h ▸ le_refl _⟩
    dsimp only
    rw [List.reverseAux_eq, usedSpecifiers_eq]
    by_cases ne_all : neededSpecifiers l (s.kept.reverse ++ after) = importSpecifiers l.inside
    · rw [if_pos (hall.mpr ne_all), leftOf_of_all hl ne_all]
      simp
    · rw [if_neg (mt hall.mp ne_all)]
      by_cases nothing : neededSpecifiers l (s.kept.reverse ++ after) = []
      · rw [if_pos (List.isEmpty_iff.mpr nothing), leftOf_of_nothing hl ne_all nothing]
        simp [said]
      · rw [if_neg (mt List.isEmpty_iff.mp nothing), leftOf_of_some hl ne_all nothing]
        simp [said, importOf_ne hl nothing hneeded ne_all]

end Pruning

/-- **The lines and the changes of a pruning are those of its rows.** -/
theorem pruneFrom_rows (s : Pruning) (number : Nat) (ls : List Text) :
    let rows := pruneRows s.kept.reverse ls
    (pruneFrom s number ls).kept.reverse = s.kept.reverse ++ Row.leftovers rows ∧
    ((pruneFrom s number ls).changes.map Pruning.said).reverse =
      (s.changes.map Pruning.said).reverse ++ Row.changed number rows := by
  induction ls generalizing s number with
  | nil => simp [pruneFrom, pruneRows, Row.changed]
  | cons line below ih =>
    obtain ⟨hkept, hchanges⟩ := s.step_left number line below
    have hreverse : (s.step number line below).kept.reverse =
        s.kept.reverse ++ (leftOf line (s.kept.reverse ++ below)).toList := by
      rw [hkept, List.reverse_append]
      cases leftOf line (s.kept.reverse ++ below) <;> rfl
    obtain ⟨ihkept, ihchanges⟩ := ih (s.step number line below) (number + 1)
    rw [hreverse] at ihkept ihchanges
    refine ⟨?_, ?_⟩
    · rw [pruneFrom, ihkept, pruneRows, Row.leftovers_cons, List.append_assoc]
    · rw [pruneFrom, ihchanges, hchanges, pruneRows, Row.changed]
      dsimp only
      split <;> simp

theorem leftovers_of_changed_eq_nil {rows : List Row} {n : Nat} (h : Row.changed n rows = []) :
    Row.leftovers rows = rows.map Row.line := by
  induction rows generalizing n with
  | nil => rfl
  | cons row rows ih =>
    rw [Row.changed] at h
    split at h
    · next hleft => rw [Row.leftovers_cons, hleft, ih h, Option.toList_some, List.map_cons,
        List.singleton_append]
    · cases h

variable (t : Text) (i : Issue)

/-- What is left of every line of a text. -/
def rowsOf : List Row := pruneRows [] (lines t)

theorem map_line_rowsOf : (rowsOf t).map Row.line = lines t := map_line_pruneRows [] (lines t)

theorem left_of_rowsOf {above below : List Row} {row : Row} (h : rowsOf t = above ++ row :: below) :
    row.left = leftOf row.line (Row.leftovers above ++ below.map Row.line) := left_of_pruneRows h

theorem newline_not_mem_leftovers : ∀ line ∈ Row.leftovers (rowsOf t), '\n' ∉ line := by
  have hsound : Pruning.Sound [] {} := ⟨le_refl _, by simp, by simp, by simp⟩
  have honeLine := (pruneFrom_sound 1 hsound fun line =>
    newline_not_mem_of_mem_lines (t := t)).oneLine
  have hkept := (pruneFrom_rows {} 1 (lines t)).1
  rw [List.reverse_nil, List.nil_append] at hkept
  intro line hline
  rw [rowsOf, ← hkept, List.mem_reverse] at hline
  exact honeLine line hline

/-- What becomes of a text is what is left of its lines, and the changes say so. -/
theorem pruneImports_rows : (pruneImports t i).fixed = unlines (Row.leftovers (rowsOf t)) ∧
    (pruneImports t i).changes.map Pruning.said = Row.changed 1 (rowsOf t) := by
  obtain ⟨hkept, hchanges⟩ := pruneFrom_rows {} 1 (lines t)
  rw [List.reverse_nil, List.nil_append] at hkept
  rw [List.reverse_nil, List.map_nil, List.reverse_nil, List.nil_append, ← List.map_reverse]
    at hchanges
  rw [pruneImports]
  split
  · next hremoved =>
    have hsound : Pruning.Sound [] {} := ⟨le_refl _, by simp, by simp, by simp⟩
    have hnone := (pruneFrom_sound 1 hsound fun line =>
      newline_not_mem_of_mem_lines (t := t)).removed_iff.mp hremoved
    rw [hnone] at hchanges
    refine ⟨?_, hchanges⟩
    rw [rowsOf, leftovers_of_changed_eq_nil hchanges.symm, map_line_pruneRows, unlines_lines]
    rfl
  · exact ⟨congrArg unlines hkept, hchanges⟩

/-! ## What imports keep -/

/-- A name that is not mentioned on the other lines as they are at one moment is not mentioned on
what is left of them. -/
theorem not_mentions_leftovers {above below : List Row} {row : Row} {name : Text}
    (h : rowsOf t = above ++ row :: below) (hname : IsName name)
    (hmoment : ∀ other ∈ Row.leftovers above ++ below.map Row.line, ¬ mentions name other) :
    ∀ other ∈ Row.leftovers above ++ Row.leftovers below, ¬ mentions name other := by
  intro other hother
  obtain hother | hother := List.mem_append.mp hother
  · exact hmoment other (List.mem_append_left _ hother)
  · -- what is done further down brings in no name
    obtain ⟨row', hrow', hleft⟩ := List.mem_filterMap.mp hother
    obtain ⟨before, after, rfl⟩ := List.append_of_mem hrow'
    have hsplit : rowsOf t = (above ++ row :: before) ++ row' :: after := by simpa using h
    rw [left_of_rowsOf t hsplit] at hleft
    exact fun hmentions => hmoment row'.line (by simp) (mentions_of_leftOf hleft hname hmentions)

/-- **An import keeps the specifiers that are mentioned on other lines**, on what is left of the
lines above and on the lines below, in their order; and what it loses is mentioned on no other line
of the pruned text. -/
theorem pruneImports_keeps_needed :
    (rowsOf t).map Row.line = lines t ∧
    (pruneImports t i).fixed = unlines (Row.leftovers (rowsOf t)) ∧
    (∀ line ∈ Row.leftovers (rowsOf t), '\n' ∉ line) ∧
    (pruneImports t i).changes.map Pruning.said = Row.changed 1 (rowsOf t) ∧
    ∀ above row below l, rowsOf t = above ++ row :: below → importLine? row.line = some l →
      let needed := neededSpecifiers l (Row.leftovers above ++ below.map Row.line)
      Outcome row l needed ∧
      ∀ s ∈ importSpecifiers l.inside, s ∉ needed → (∀ c ∈ boundName s, isNameChar c) →
        ∀ other ∈ Row.leftovers above ++ Row.leftovers below, ¬ mentions (boundName s) other := by
  refine ⟨map_line_rowsOf t, (pruneImports_rows t i).1, newline_not_mem_leftovers t,
    (pruneImports_rows t i).2,
    fun above row below l h hl => ⟨?outcome, fun s hs dropped hname => ?absent⟩⟩
  case outcome => exact outcome_of_leftOf row hl (left_of_rowsOf t h)
  case absent =>
    refine not_mentions_leftovers t h ⟨(boundName_of_mem_importSpecifiers hs).1, hname⟩ ?_
    exact fun other hother hmentions => dropped (mem_neededSpecifiers.mpr ⟨hs, other, hother,
      hmentions⟩)

/-- Of an import of two names, the one that is used stays. -/
theorem pruneImports_keeps_needed_sample :
    let t := "import \x7b a, b as c \x7d from 'm'\nuse(a)".toList
    let row : Row := ⟨"import \x7b a, b as c \x7d from 'm'".toList,
      some "import \x7b a \x7d from 'm'".toList⟩
    let below : List Row := [⟨"use(a)".toList, some "use(a)".toList⟩]
    let l : ImportLine := ⟨"import \x7b".toList, " a, b as c ".toList, "\x7d from 'm'".toList⟩
    (rowsOf t = row :: below ∧ importLine? row.line = some l) ∧
    Outcome row l ["a".toList] ∧
    (∀ c ∈ "c".toList, isNameChar c) ∧
    ∀ other ∈ Row.leftovers below, ¬ mentions "c".toList other := by
  intro t row below l
  have hrows : rowsOf t = row :: below := rfl
  have hl : importLine? row.line = some l := rfl
  have hname : ∀ c ∈ "c".toList, isNameChar c := List.all_eq_true.mp rfl
  have hspecifiers : importSpecifiers l.inside = ["a".toList, "b as c".toList] := rfl
  have hneeded : neededSpecifiers l (below.map Row.line) = ["a".toList] := rfl
  obtain ⟨houtcome, habsent⟩ := (pruneImports_keeps_needed t
    { rule := "unused_imports", description := "" }).2.2.2.2 [] row below l hrows hl
  refine ⟨⟨hrows, hl⟩, hneeded ▸ houtcome, hname, ?_⟩
  have hdropped : "b as c".toList ∉ neededSpecifiers l (below.map Row.line) := by
    rw [hneeded]
    decide
  exact habsent "b as c".toList (by simp [hspecifiers]) hdropped hname

end Mend.Fix

import Mend.Proofs.Fix.Control

/-!
# Handlers run out of awaits

A line that awaits gets a handler once: inside of it the line stands below the opening of a block,
and neither the lines of the handler nor the line below it count instead. So every handler leaves
one line less that awaits without one.

* `unwrapped`: how many lines await without a handler.
* `unwrappedFrom`: the same, line by line; it adds up over lines that are put together.
* `unwrapped_addErrorHandling`: a handler leaves one less.
* `addErrorHandling_terminates`: there are at most as many handlers to put in.
-/

namespace Mend

open Text

namespace Fix

/-! ## Lines that await without a handler -/

/-- How many lines of a text await and are not the first line of a handled block. -/
def unwrapped (t : Text) : Nat :=
  (List.range (lines t).length).countP (isUnwrapped (lines t).toArray)

/-- Whether a line opens a handled block. -/
def opensBlock (line : Text) : Bool := trim line == "try \x7b".toList

/-- Whether a line awaits without a handler, `above` being the line above it. -/
def awaitsBelow (above : Option Text) (line : Text) : Bool :=
  contains "await".toList line && !above.any opensBlock

/-- How many of the lines below `above` await without a handler. -/
def unwrappedFrom (above : Option Text) : List Text → Nat
  | [] => 0
  | line :: below => (awaitsBelow above line).toNat + unwrappedFrom (some line) below

variable {above : Option Text} {line line' : Text} {ls ls' : List Text} {t : Text} {i : Issue}

theorem isUnwrapped_append : isUnwrapped (ls ++ line :: ls').toArray ls.length =
    awaitsBelow ls.getLast? line := by
  have hline : (ls ++ line :: ls').toArray.getD ls.length [] = line := by simp
  rw [isUnwrapped, awaitsBelow, hline]
  congr 2
  obtain rfl | ⟨init, last, rfl⟩ := ls.eq_nil_or_concat
  · rfl
  · simp [opensBlock]

theorem countP_isUnwrapped (ls ls' : List Text) :
    (List.range' ls.length ls'.length).countP (isUnwrapped (ls ++ ls').toArray) =
      unwrappedFrom ls.getLast? ls' := by
  induction ls' generalizing ls with
  | nil => rfl
  | cons line ls' ih =>
    have hrest := ih (ls ++ [line])
    rw [List.length_append, List.length_singleton, ← List.append_cons, List.getLast?_concat]
      at hrest
    rw [List.length_cons, List.range'_succ, List.countP_cons, hrest, isUnwrapped_append,
      unwrappedFrom, Nat.add_comm]
    cases awaitsBelow ls.getLast? line <;> rfl

theorem unwrapped_eq (t : Text) : unwrapped t = unwrappedFrom none (lines t) := by
  rw [unwrapped, List.range_eq_range']
  exact countP_isUnwrapped [] (lines t)

theorem unwrappedFrom_append (above : Option Text) (ls ls' : List Text) :
    unwrappedFrom above (ls ++ ls') =
      unwrappedFrom above ls + unwrappedFrom (ls.getLast?.or above) ls' := by
  induction ls generalizing above with
  | nil => simp [unwrappedFrom]
  | cons line ls ih =>
    rw [List.cons_append, unwrappedFrom, unwrappedFrom, ih, List.getLast?_cons,
      Option.some_or, Nat.add_assoc]
    cases ls.getLast? <;> rfl

/-- What stands above matters only as far as it opens a block. -/
theorem unwrappedFrom_congr (h : opensBlock line = opensBlock line') (ls : List Text) :
    unwrappedFrom (some line) ls = unwrappedFrom (some line') ls := by
  cases ls with
  | nil => rfl
  | cons below ls => simp [unwrappedFrom, awaitsBelow, h]

/-! ## What a handler leaves -/

theorem not_awaits {margin w : Text} {c : Char} (hmargin : ∀ d ∈ margin, isBlank d)
    (hc : c ∈ "await".toList) (hw : c ∉ w) : contains "await".toList (margin ++ w) = false := by
  have hletters : "await".toList.all fun d => !isBlank d := by decide
  rw [Bool.eq_false_iff, ne_eq, contains_iff]
  intro h
  obtain hmem | hmem := List.mem_append.mp (h.subset hc)
  · simpa [hmargin c hmem] using List.all_eq_true.mp hletters c hc
  · exact hw hmem

theorem blank_of_mem_indent : ∀ c ∈ indent line, isBlank c := fun _ => List.mem_takeWhile_imp

theorem opensBlock_append {margin w : Text} (hmargin : ∀ c ∈ margin, isBlank c) (hw : Trimmed w) :
    opensBlock (margin ++ w) = (w == "try \x7b".toList) := by
  have htrim : trim (margin ++ (w ++ [])) = w := trim_append hmargin (by simp) hw
  rw [List.append_nil] at htrim
  rw [opensBlock, htrim]

theorem unwrappedFrom_eq_zero (h : ∀ line ∈ ls, contains "await".toList line = false) :
    unwrappedFrom above ls = 0 := by
  induction ls generalizing above with
  | nil => rfl
  | cons line ls ih =>
    obtain ⟨hline, hls⟩ := List.forall_mem_cons.mp h
    rw [unwrappedFrom, awaitsBelow, hline, ih hls]
    rfl

/-- None of the lines of a handler awaits without one. -/
theorem unwrappedFrom_handled (above : Option Text) (line : Text) :
    unwrappedFrom above (handled line) = 0 := by
  have hidle : ∀ {w} (c : Char), c ∈ "await".toList → c ∉ w →
      contains "await".toList (indent line ++ w) = false := fun _ =>
    not_awaits blank_of_mem_indent
  have hopens : opensBlock (indent line ++ "try \x7b".toList) := by
    rw [opensBlock_append blank_of_mem_indent (by simp [Trimmed, isBlank])]
    rfl
  have hrest : ∀ l ∈ (handled line).drop 2, contains "await".toList l = false := by
    simp only [handled, List.drop_succ_cons, List.drop_zero, List.forall_mem_cons]
    exact ⟨hidle 'w' (by decide) (by decide), hidle 'w' (by decide) (by decide),
      hidle 'a' (by decide) (by decide), hidle 'a' (by decide) (by decide), by simp⟩
  have hopening := hidle (w := "try \x7b".toList) 'a' (by decide) (by decide)
  have hcut : handled line = (indent line ++ "try \x7b".toList) ::
      (indent line ++ "  ".toList ++ trim line) :: (handled line).drop 2 := rfl
  rw [hcut, unwrappedFrom, unwrappedFrom, unwrappedFrom_eq_zero hrest, awaitsBelow, hopening,
    awaitsBelow, Option.any_some, hopens, Bool.not_true, Bool.and_false]
  rfl

theorem opensBlock_of_awaits (h : contains "await".toList line) : opensBlock line = false := by
  have hmem : 'w' ∈ line := (contains_iff.mp h).subset (by decide)
  have htrim : 'w' ∈ trim line := mem_trim hmem (by decide)
  rw [opensBlock, beq_eq_false_iff_ne]
  intro e
  rw [e] at htrim
  exact absurd htrim (by decide)

/-- **A handler in the place of a line leaves one line less that awaits without one**, wherever the
line stands. -/
theorem unwrappedFrom_splice (h : awaitsBelow ls.getLast? line) (ls' : List Text) :
    unwrappedFrom none (ls ++ (handled line ++ ls')) + 1 =
      unwrappedFrom none (ls ++ line :: ls') := by
  have hlast : (handled line).getLast? = some (indent line ++ "\x7d".toList) := rfl
  have hclosing : opensBlock (indent line ++ "\x7d".toList) = false := by
    rw [opensBlock_append blank_of_mem_indent (by simp [Trimmed, isBlank])]
    rfl
  have hopens : opensBlock line = false := by
    rw [awaitsBelow, Bool.and_eq_true] at h
    exact opensBlock_of_awaits h.1
  -- the line below has neither in front of it the opening of a block
  have hbelow := unwrappedFrom_congr (hclosing.trans hopens.symm) ls'
  rw [unwrappedFrom_append, unwrappedFrom_append, unwrappedFrom_append, unwrappedFrom_handled,
    hlast, Option.some_or, hbelow, unwrappedFrom, Option.or_none, h]
  simp only [Bool.toNat_true]
  omega

/-- **Every handler leaves one line less that awaits without one.** -/
theorem unwrapped_addErrorHandling (success : (addErrorHandling t i).success) :
    unwrapped (addErrorHandling t i).fixed + 1 = unwrapped t := by
  rw [addErrorHandling] at success ⊢
  cases h : place? (lines t) i (isUnwrapped (lines t).toArray) with
  | none => simp [h, nothing] at success
  | some k =>
    dsimp only
    have hk := place?_lt h
    have hcut := take_append_getD_cons_drop hk
    set line := (lines t).getD k [] with hline
    have hblock : ∀ l ∈ replaceLine (lines t) k (handled line), '\n' ∉ l := by
      intro l hl
      obtain hl | hl := mem_of_mem_splice hl
      · exact newline_not_mem_of_mem_lines hl
      · exact newline_not_mem_handled (newline_not_mem_getD t k) l hl
    have hawaits : awaitsBelow ((lines t).take k).getLast? line := by
      have hq := place?_qualifies h
      rw [← hcut] at hq
      have hlen : ((lines t).take k).length = k := List.length_take_of_le hk.le
      rwa [← isUnwrapped_append, hlen]
    rw [unwrapped_eq, unwrapped_eq, lines_unlines (by simp [replaceLine, handled]) hblock,
      replaceLine, List.append_assoc, unwrappedFrom_splice hawaits, hcut]

/-- An issue without evidence that names a line means one if any line awaits without a handler. -/
theorem addErrorHandling_idle_iff (hline : i.line.isSome) (hevidence : i.evidence = []) :
    (addErrorHandling t i).success = false ↔ unwrapped t = 0 := by
  have hmarker : i.marker = [] := by rw [Issue.marker, hevidence]; rfl
  have hany : ∀ line, contains [] line := fun line => contains_iff.mpr List.nil_infix
  have hsome : (place? (lines t) i (isUnwrapped (lines t).toArray)).isSome ↔ unwrapped t ≠ 0 := by
    rw [isSome_place? hline, ne_eq, ne_eq, List.eq_nil_iff_forall_not_mem, unwrapped,
      List.countP_eq_zero]
    simp only [mem_candidates, hmarker, hany, List.mem_range, true_and, not_and]
  rw [← not_iff_not, ← ne_eq (unwrapped t), ← hsome, Bool.not_eq_false, addErrorHandling]
  cases place? (lines t) i (isUnwrapped (lines t).toArray) with
  | none => simp [nothing]
  | some k => simp

/-! ## One handler after another -/

/-- The fixes of some issues one after another, each of the text that the one before has left. -/
def chain (fix : Text → Issue → Fix) : Text → List Issue → List Fix
  | _, [] => []
  | t, i :: is => fix t i :: chain fix (fix t i).fixed is

theorem countP_chain_le (t : Text) (is : List Issue) :
    (chain addErrorHandling t is).countP (·.success) ≤ unwrapped t := by
  induction is generalizing t with
  | nil => exact Nat.zero_le _
  | cons i is ih =>
    have hrest := ih (addErrorHandling t i).fixed
    rw [chain, List.countP_cons]
    by_cases success : (addErrorHandling t i).success
    · have hone := unwrapped_addErrorHandling success
      rw [if_pos success]
      omega
    · have hsame : (addErrorHandling t i).fixed = t := by
        by_contra hne
        exact success ((addErrorHandling_contract t i).success_iff_text.mpr hne)
      rw [if_neg success, hsame]
      rwa [hsame] at hrest

/-- **Putting handlers around awaits comes to an end.** Each one leaves one line less that awaits
without a handler, so there are at most as many as there are such lines, whatever issues ask for
them; and an issue that names a line and has no evidence gets one as long as there is such a
line. -/
theorem addErrorHandling_terminates (t : Text) (i : Issue) :
    ((addErrorHandling t i).success → unwrapped (addErrorHandling t i).fixed + 1 = unwrapped t) ∧
    (∀ is : List Issue, (chain addErrorHandling t is).countP (·.success) ≤ unwrapped t) ∧
    (i.line.isSome → i.evidence = [] →
      ((addErrorHandling t i).success = false ↔ unwrapped t = 0)) :=
  ⟨unwrapped_addErrorHandling, countP_chain_le t, addErrorHandling_idle_iff⟩

/-- Two awaits below each other, the second of which opens no block for the line below it. -/
theorem addErrorHandling_terminates_sample :
    let t := "await a()\n  await b()\nc()".toList
    let i : Issue := { rule := "missing_error_handling", description := "", line := some 7 }
    unwrapped t = 2 ∧ (addErrorHandling t i).success ∧
      unwrapped (addErrorHandling t i).fixed + 1 = unwrapped t ∧
      (chain addErrorHandling t [i, i, i]).countP (·.success) ≤ unwrapped t ∧
      i.line.isSome ∧ i.evidence = [] ∧
      ((addErrorHandling t i).success = false ↔ unwrapped t = 0) := by
  intro t i
  obtain ⟨hless, hmost, hidle⟩ := addErrorHandling_terminates t i
  have success : (addErrorHandling t i).success := by decide +kernel
  exact ⟨by decide +kernel, success, hless success, hmost [i, i, i], rfl, rfl, hidle rfl rfl⟩

end Fix

end Mend

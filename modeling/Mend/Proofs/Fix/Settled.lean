import Mend.Proofs.Fix.Collapses
import Mend.Proofs.Fix.Contract
import Mend.Proofs.Fix.Foreign
import Mend.Proofs.Fix.Lookups
import Mend.Proofs.Rule

/-!
# Fixes that leave nothing to do

A transform that goes through the whole text for output to the console, secrets, collapses or
measurements finds nothing to do in the text that it leaves, whatever issue it is given. A line
whose measurements were moved is put together from its statements, and these can be read back from
it.

* `deferred?_deferred`: a line whose measurements were moved stays as it is.
* `transform_settles`: what is done once needs not be done again.
-/

namespace Mend

open Text Idiom

namespace Fix

/-! ## Measurements that come last -/

theorem mem_statements {line s : Text} (h : s ∈ statements line) :
    Trimmed s ∧ s ≠ [] ∧ ';' ∉ s := by
  rw [statements, List.mem_filter, List.mem_map] at h
  obtain ⟨⟨w, hw, rfl⟩, hne⟩ := h
  exact ⟨trimmed_trim w, by simpa using hne, not_mem_trim (not_mem_of_mem_splitOn hw)⟩

theorem mem_measurementsLast {ss : List Text} {s : Text} : s ∈ measurementsLast ss ↔ s ∈ ss := by
  rw [measurementsLast, List.mem_append, List.mem_filter, List.mem_filter]
  cases isMeasurement s <;> simp

/-- What comes last stays last. -/
theorem measurementsLast_measurementsLast (ss : List Text) :
    measurementsLast (measurementsLast ss) = measurementsLast ss := by
  simp [measurementsLast, List.filter_append, List.filter_filter]

theorem semicolon_not_mem_of_blank {margin : Text} (hmargin : ∀ c ∈ margin, isBlank c) :
    ';' ∉ margin :=
  fun h => absurd (hmargin ';' h) (by decide)

theorem trim_append_left {margin s : Text} (hmargin : ∀ c ∈ margin, isBlank c) (hs : Trimmed s) :
    trim (margin ++ s) = s := by
  have hnone : ∀ c ∈ ([] : Text), isBlank c := by simp
  simpa using trim_append hmargin hnone hs

/-- The statement up to a semicolon is the first one. -/
theorem statements_append {margin s : Text} (hmargin : ∀ c ∈ margin, isBlank c) (htrim : Trimmed s)
    (nonempty : s ≠ []) (hs : ';' ∉ s) (rest : Text) :
    statements (margin ++ s ++ ';' :: rest) = s :: statements rest := by
  have hfree : ';' ∉ margin ++ s := by
    rw [List.mem_append, not_or]
    exact ⟨semicolon_not_mem_of_blank hmargin, hs⟩
  rw [statements, List.splitOn_append_cons_self_of_not_mem hfree, List.map_cons,
    trim_append_left hmargin htrim, List.filter_cons_of_pos (by simpa using nonempty)]
  rfl

/-- The statements of a line that is put together from statements are these statements. -/
theorem statements_statementLine {margin : Text} (hmargin : ∀ c ∈ margin, isBlank c) :
    ∀ {ss : List Text}, (∀ s ∈ ss, Trimmed s ∧ s ≠ [] ∧ ';' ∉ s) →
      statements (statementLine margin ss) = ss
  | [], _ => by
    have hblank : trim margin = [] := by
      simpa using trim_append_left hmargin (s := []) (by simp [Trimmed])
    have hline : statementLine margin [] = margin ++ ';' :: [] := by simp [statementLine]
    rw [hline, statements,
      List.splitOn_append_cons_self_of_not_mem (semicolon_not_mem_of_blank hmargin),
      List.map_cons, hblank]
    rfl
  | [s], h => by
    obtain ⟨htrim, hne, hs⟩ := h s (by simp)
    have hline : statementLine margin [s] = margin ++ s ++ ';' :: [] := by simp [statementLine]
    rw [hline, statements_append hmargin htrim hne hs]
    rfl
  | s :: s' :: ss, h => by
    obtain ⟨htrim, hne, hs⟩ := h s (by simp)
    have hline : statementLine margin (s :: s' :: ss) =
        margin ++ s ++ ';' :: statementLine [' '] (s' :: ss) := by
      simp [statementLine, List.intercalate_cons_cons]
    rw [hline, statements_append hmargin htrim hne hs,
      statements_statementLine blank_of_mem_space fun x hx => h x (List.mem_cons_of_mem s hx)]

theorem indent_statementLine {margin : Text} (hmargin : ∀ c ∈ margin, isBlank c) {ss : List Text}
    (h : ∀ s ∈ ss, Trimmed s ∧ s ≠ []) : indent (statementLine margin ss) = margin := by
  rw [statementLine, List.append_assoc, indent]
  refine Reader.takeWhile_append_stop hmargin ?_
  cases ss with
  | nil => decide
  | cons s ss =>
    obtain ⟨htrim, hne⟩ := h s (by simp)
    obtain ⟨rest, hrest⟩ : ∃ rest, List.intercalate "; ".toList (s :: ss) ++ [';'] = s ++ rest := by
      cases ss with
      | nil => exact ⟨[';'], by simp⟩
      | cons s' ss =>
        exact ⟨_, by rw [List.intercalate_cons_cons, List.append_assoc, List.append_assoc]⟩
    rw [hrest, List.head?_append_of_ne_nil s hne]
    exact htrim.1

/-- What is read back from a line that is put together with its measurements last. -/
theorem statements_written (line : Text) :
    let new := statementLine (indent line) (measurementsLast (statements line))
    statements new = measurementsLast (statements line) ∧ indent new = indent line := by
  have hall : ∀ s ∈ measurementsLast (statements line), Trimmed s ∧ s ≠ [] ∧ ';' ∉ s := fun s hs =>
    mem_statements (mem_measurementsLast.mp hs)
  have hmargin : ∀ c ∈ indent line, isBlank c := fun _ => List.mem_takeWhile_imp
  exact ⟨statements_statementLine hmargin hall,
    indent_statementLine hmargin fun s hs => ⟨(hall s hs).1, (hall s hs).2.1⟩⟩

/-- **A line whose measurements were moved stays as it is.** -/
theorem deferred?_deferred {line new : Text} (h : deferred? line = some new) :
    deferred? new = none := by
  obtain ⟨rfl, -⟩ := deferred?_eq_some h
  obtain ⟨hstatements, hindent⟩ := statements_written line
  cases hagain : deferred? (statementLine (indent line) (measurementsLast (statements line))) with
  | none => rfl
  | some again =>
    obtain ⟨hnew, hne⟩ := deferred?_eq_some hagain
    rw [hstatements, hindent, measurementsLast_measurementsLast] at hnew
    exact absurd hnew hne

/-- A text in which no measurement comes too early is left as it is. -/
theorem deferMeasurement_idle {t : Text} (i : Issue) (h : ∀ line ∈ lines t, deferred? line = none) :
    (deferMeasurement t i).success = false := by
  rw [Bool.eq_false_iff, ne_eq, (deferMeasurement_contract t i).success_iff_changes, not_not,
    changes_deferMeasurement, List.filterMap_eq_nil_iff]
  intro row hrow
  rw [h row.1 (List.fst_mem_of_mem_zipIdx hrow), Option.map_none]

/-- **What measurements were moved on has none that comes too early.** -/
theorem deferMeasurement_settles (t : Text) (i i' : Issue) :
    (deferMeasurement (deferMeasurement t i).fixed i').success = false := by
  refine deferMeasurement_idle i' fun new hnew => ?_
  rw [lines_deferMeasurement] at hnew
  obtain ⟨line, -, rfl⟩ := List.mem_map.mp hnew
  cases hd : deferred? line with
  | none => exact hd
  | some new => exact deferred?_deferred hd

/-! ## Output to the console and secrets -/

theorem replaceConsoleLog_settles {t : Text} {i : Issue} (success : (replaceConsoleLog t i).success)
    (i' : Issue) : (replaceConsoleLog (replaceConsoleLog t i).fixed i').success = false := by
  rw [Bool.eq_false_iff, ne_eq, success_replaceConsoleLog_iff]
  exact not_infix_replaceConsoleLog success

theorem externalizeSecrets_settles (t : Text) (i i' : Issue) :
    (externalizeSecrets (externalizeSecrets t i).fixed i').success = false := by
  rw [fixed_externalizeSecrets, externalizeSecrets, if_pos]
  · rfl
  · exact List.isEmpty_iff.mpr (hits_secretAssignment_externalized t)

/-- A transform that does not look at the issue and has nothing to do in a text that it has changed
has nothing to do in any text that it leaves. -/
theorem settles {fix : Text → Issue → Fix} (contract : ∀ t i, (fix t i).Contract t)
    (blind : ∀ t i i', fix t i = fix t i')
    (h : ∀ t i i', (fix t i).success → (fix (fix t i).fixed i').success = false) (t : Text)
    (i i' : Issue) : (fix (fix t i).fixed i').success = false ∧
      (fix (fix t i).fixed i').fixed = (fix t i).fixed := by
  have hidle : (fix (fix t i).fixed i').success = false := by
    by_cases success : (fix t i).success
    · exact h t i i' success
    · have hsame : (fix t i).fixed = t :=
        not_ne_iff.mp (mt (contract t i).success_iff_text.mpr success)
      rw [hsame, blind t i' i]
      exact Bool.eq_false_iff.mpr success
  refine ⟨hidle, not_ne_iff.mp (mt (contract _ i').success_iff_text.mpr ?_)⟩
  rw [hidle]
  exact Bool.false_ne_true

end Fix

/-- **Transforms that go through the whole text for output to the console, secrets, collapses or
measurements have nothing to do in the text that they leave**, whatever issue they are given. -/
theorem transform_settles {k : TransformKind}
    (hk : k ∈ [.replaceConsoleLog, .externalizeSecrets, .collapseSuperposition, .deferMeasurement])
    (t : Text) (i i' : Issue) :
    ∃ f f', k.transform t i = .ok f ∧ k.transform f.fixed i' = .ok f' ∧
      f'.success = false ∧ f'.fixed = f.fixed := by
  have hfix : ∃ fix : Text → Issue → Fix, k.transform = (fun t i => .ok (fix t i)) ∧
      ∀ t i i', (fix (fix t i).fixed i').success = false ∧
        (fix (fix t i).fixed i').fixed = (fix t i).fixed := by
    simp only [List.mem_cons, List.not_mem_nil, or_false] at hk
    obtain rfl | rfl | rfl | rfl := hk
    · exact ⟨_, rfl, Fix.settles Fix.replaceConsoleLog_contract (fun _ _ _ => rfl)
        fun _ _ i' success => Fix.replaceConsoleLog_settles success i'⟩
    · exact ⟨_, rfl, Fix.settles Fix.externalizeSecrets_contract (fun _ _ _ => rfl)
        fun t i i' _ => Fix.externalizeSecrets_settles t i i'⟩
    · exact ⟨_, rfl, Fix.settles Fix.collapseSuperposition_contract (fun _ _ _ => rfl)
        fun _ _ i' success => Fix.collapseSuperposition_settles success i'⟩
    · exact ⟨_, rfl, Fix.settles Fix.deferMeasurement_contract (fun _ _ _ => rfl)
        fun t i i' _ => Fix.deferMeasurement_settles t i i'⟩
  obtain ⟨fix, htransform, hsettles⟩ := hfix
  rw [htransform]
  exact ⟨_, _, rfl, rfl, hsettles t i i'⟩

/-- A superposition that collapses twice and is measured then, which takes both passes. -/
theorem transform_settles_sample :
    let k := TransformKind.collapseSuperposition
    let issue : Issue := { rule := "quantum_superposition_misuse", description := "" }
    let other : Issue := { rule := "code_style_logging", description := "", line := some 2 }
    let t := "superposition.collapse() .collapse()\n  .measure()".toList
    k ∈ [.replaceConsoleLog, .externalizeSecrets, .collapseSuperposition, .deferMeasurement] ∧
      k.Succeeds t issue ∧
      ∃ f f', k.transform t issue = .ok f ∧ k.transform f.fixed other = .ok f' ∧
        f'.success = false ∧ f'.fixed = f.fixed := by
  intro k issue other t
  have hk : k ∈ [.replaceConsoleLog, .externalizeSecrets, .collapseSuperposition,
      .deferMeasurement] := by decide
  have hdone : k.Succeeds t issue := ⟨_, rfl, by decide +kernel⟩
  exact ⟨hk, hdone, transform_settles hk t issue other⟩

end Mend

import Mend.Detection
import Mend.Fix.Transform
import Mend.Proofs.Fix.Hygiene
import Mend.Proofs.Fix.Names
import Mend.Proofs.Fix.Quantum

/-!
# What rules report and what transforms repair

Rules and transforms look for what they look for by patterns of their own: a rule goes through the
whole text, where a transform may go line by line, pass by pass or from one pruned import to the
next. They agree nevertheless.

* `success_replaceConsoleLog_iff`: calls are replaced wherever one stands in the text.
* `findUnusedImport_iff`: the first unused import is seen by the rule and by the transform.
* `reports_of_bindEntanglement`, `reports_of_collapseSuperposition`, `reports_of_deferMeasurement`:
  what is repaired was reported.
* `rules_agree`: rules and transforms that go through the whole text agree.
-/

namespace Mend

open Text

/-- A rule reports at least one issue in a text. -/
def Rule.Reports (r : Rule) (t : Text) : Prop := r.reported t ≠ []

/-- A transform answers with a fix that succeeded. -/
def TransformKind.Succeeds (k : TransformKind) (t : Text) (i : Issue) : Prop :=
  ∃ f, k.transform t i = .ok f ∧ f.success

theorem Rule.exists_of_mem_reported {r : Rule} {t : Text} {i : Issue} (h : i ∈ r.reported t) :
    ∃ f, i = r.issue f := by
  unfold reported run at h
  cases hfind : r.find t with
  | error e =>
    rw [hfind] at h
    cases h
  | ok found =>
    rw [hfind] at h
    obtain ⟨f, -, rfl⟩ := List.mem_map.mp h
    exact ⟨f, rfl⟩

/-- Every issue names the rule that reports it. -/
theorem Rule.rule_of_mem_reported {r : Rule} {t : Text} {i : Issue} (h : i ∈ r.reported t) :
    i.rule = r.id := by
  obtain ⟨f, rfl⟩ := exists_of_mem_reported h
  rfl

/-- Every issue is as severe as the rule that reports it says. -/
theorem Rule.severity_of_mem_reported {r : Rule} {t : Text} {i : Issue} (h : i ∈ r.reported t) :
    i.severity = r.severity := by
  obtain ⟨f, rfl⟩ := exists_of_mem_reported h
  rfl

theorem Rule.reports_iff {r : Rule} {t : Text} {found : List Finding} (h : r.find t = .ok found) :
    r.Reports t ↔ found ≠ [] := by
  rw [Reports, reported, run, h]
  exact not_congr List.map_eq_nil_iff

theorem Rule.firstHit_ne_nil_iff {p : Pattern} {t : Text} : firstHit p t ≠ [] ↔ hits p t ≠ [] := by
  rw [firstHit]
  cases hits p t <;> simp

/-! ## Logging -/

theorem success_replaceConsoleLog_iff {t : Text} {i : Issue} :
    (Fix.replaceConsoleLog t i).success ↔ Idiom.consoleCall <:+: t := by
  rw [infix_iff_lines (by decide), Fix.replaceConsoleLog]
  dsimp only
  split
  · next h =>
    refine iff_of_false Bool.false_ne_true ?_
    rintro ⟨line, hline, hcall⟩
    refine Idiom.hits_consoleLog_iff.mpr hcall (List.length_eq_zero_iff.mp ?_)
    exact (Fix.foldl_add_eq_zero_iff.mp h).2 (line, _) (List.mem_map.mpr ⟨line, hline, rfl⟩)
  · next h =>
    obtain ⟨row, hrow, hcount⟩ := Fix.exists_of_foldl_add_ne_zero h
    obtain ⟨line, hline, rfl⟩ := List.mem_map.mp hrow
    refine iff_of_true rfl ⟨line, hline, Idiom.hits_consoleLog_iff.mp fun e => hcount ?_⟩
    exact List.length_eq_zero_iff.mpr e

/-! ## Imports -/

namespace Fix.Pruning

/-- How many specifiers of an import other lines never mention. -/
def unused (l : Idiom.ImportLine) (others : Text) : Nat :=
  (Idiom.importSpecifiers l.inside).length -
    (usedSpecifiers (Idiom.importSpecifiers l.inside) others).length

theorem isUnused_iff {l : Idiom.ImportLine} {others : Text} :
    Rule.isUnused l others ↔ 0 < unused l others := by
  rw [unused, Nat.sub_pos_iff_lt, usedSpecifiers, List.length_filter_lt_length_iff_exists,
    Rule.isUnused, List.any_eq_true]
  simp

variable (s : Pruning) (number : Nat) {line : Text} (after : List Text)

theorem step_of_none (h : Idiom.importLine? line = none) :
    s.step number line after = { s with kept := line :: s.kept } := by
  rw [step, h]

theorem step_of_used {l : Idiom.ImportLine} (h : Idiom.importLine? line = some l)
    (hused : unused l (unlines (s.kept.reverseAux after)) = 0) :
    s.step number line after = { s with kept := line :: s.kept } := by
  rw [step, h]
  exact if_pos hused

theorem removed_step {l : Idiom.ImportLine} (h : Idiom.importLine? line = some l) :
    (s.step number line after).removed =
      s.removed + unused l (unlines (s.kept.reverseAux after)) := by
  by_cases hused : unused l (unlines (s.kept.reverseAux after)) = 0
  · rw [step_of_used s number after h hused, hused, Nat.add_zero]
  · rw [step, h]
    refine (congrArg Pruning.removed (if_neg hused)).trans ?_
    split <;> rfl

/-- Pruning counts on. -/
theorem removed_le_pruneFrom (ls : List Text) : s.removed ≤ (pruneFrom s number ls).removed := by
  induction ls generalizing s number with
  | nil => exact le_refl _
  | cons line after ih =>
    have hstep : s.removed ≤ (s.step number line after).removed := by
      cases h : Idiom.importLine? line with
      | none => rw [step_of_none s number after h]
      | some l =>
        rw [removed_step s number after h]
        exact Nat.le_add_right _ _
    exact hstep.trans (ih _ _)

end Fix.Pruning

/-- **The rule sees an unused import exactly if the transform prunes one.** As long as neither has
seen one, both have the same lines before them. -/
theorem findUnusedImport_iff {after : List Text} {s : Fix.Pruning} (hs : s.removed = 0)
    (number : Nat) :
    Rule.findUnusedImport s.kept after ≠ [] ↔ (Fix.pruneFrom s number after).removed ≠ 0 := by
  induction after generalizing s number with
  | nil => simp [Rule.findUnusedImport, Fix.pruneFrom, hs]
  | cons line after ih =>
    have hkept : Rule.findUnusedImport (line :: s.kept) after ≠ [] ↔
        (Fix.pruneFrom { s with kept := line :: s.kept } (number + 1) after).removed ≠ 0 :=
      ih (s := { s with kept := line :: s.kept }) hs (number + 1)
    rw [Rule.findUnusedImport, Fix.pruneFrom]
    cases hl : Idiom.importLine? line with
    | none =>
      rw [Fix.Pruning.step_of_none s number after hl]
      exact hkept
    | some l =>
      dsimp only
      by_cases hunused : Rule.isUnused l (unlines (s.kept.reverseAux after))
      · rw [if_pos hunused]
        have hstep : 0 < (s.step number line after).removed := by
          rw [Fix.Pruning.removed_step s number after hl]
          exact Nat.add_pos_right _ (Fix.Pruning.isUnused_iff.mp hunused)
        exact iff_of_true (List.cons_ne_nil _ _)
          (hstep.trans_le (Fix.Pruning.removed_le_pruneFrom _ _ _)).ne'
      · rw [if_neg hunused, Fix.Pruning.step_of_used s number after hl]
        · exact hkept
        · exact Nat.eq_zero_of_not_pos (mt Fix.Pruning.isUnused_iff.mpr hunused)

theorem success_pruneImports_iff {t : Text} {i : Issue} :
    (Fix.pruneImports t i).success ↔ Rule.findUnusedImport [] (lines t) ≠ [] := by
  rw [findUnusedImport_iff (s := {}) rfl 1, Fix.pruneImports]
  split
  · next h => simp [Fix.nothing, h]
  · next h => simp [h]

/-! ## Quantum operations -/

/-- What is bound to a name was leaked. -/
theorem reports_of_bindEntanglement {t : Text} {i : Issue} {f : Fix}
    (h : Fix.bindEntanglement t i = .ok f) (success : f.success) :
    hits Idiom.leakedEntanglement t ≠ [] := by
  have hbare : hits Idiom.bareEntanglement t ≠ [] := by
    obtain ⟨-, rfl⟩ | ⟨found, -⟩ := Fix.bindEntanglement_eq_ok h
    · cases success
    · exact found
  rw [hits_ne_nil_iff] at hbare ⊢
  obtain ⟨a, u, v, rfl, -, hread⟩ := hbare
  obtain ⟨margin, entangled, rfl, hne, hleak⟩ := Idiom.leaks_of_bareEntanglement hread
  refine ⟨a ++ margin, entangled, ';' :: v, by simp, hne, ?_⟩
  rwa [List.getLast?_append]

/-- What is corrected after a collapse was a misuse. -/
theorem reports_of_collapseSuperposition {t : Text} {i : Issue}
    (success : (Fix.collapseSuperposition t i).success) :
    hits Idiom.misusedSuperposition t ≠ [] := by
  have hmisused : ∀ {p : Pattern} [∀ b, Reader.Within (p b)],
      (∀ {b u v}, Reader.Reads (p b) u v → ∃ u' w, u = u' ++ w ∧ u' ≠ [] ∧
        Reader.Reads (Idiom.misusedSuperposition b) u' (w ++ v)) →
      hits p t ≠ [] → hits Idiom.misusedSuperposition t ≠ [] := by
    intro p _ hread h
    rw [hits_ne_nil_iff] at h ⊢
    obtain ⟨a, u, v, rfl, -, h⟩ := h
    obtain ⟨u', w, rfl, hne, h⟩ := hread h
    exact ⟨a, u', w ++ v, by simp, hne, h⟩
  by_cases hfirst : hits Idiom.repeatedCollapse t = []
  · refine hmisused Idiom.misused_of_measuredCollapse fun hsecond => ?_
    -- neither pass does anything
    rw [Fix.collapseSuperposition] at success
    rw [replaceHits_of_hits_eq_nil hfirst] at success
    simp [Fix.uniformChanges, hfirst, hsecond, Fix.nothing] at success
  · exact hmisused Idiom.misused_of_repeatedCollapse hfirst

/-- What is moved to the end of a line came too early. -/
theorem reports_of_deferMeasurement {t : Text} {i : Issue}
    (success : (Fix.deferMeasurement t i).success) : hits Idiom.earlyMeasurement t ≠ [] := by
  obtain ⟨line, hline, hearly⟩ : ∃ line ∈ lines t, occurs Idiom.earlyMeasurement line := by
    obtain ⟨c, hc⟩ := List.exists_mem_of_ne_nil _
      ((Fix.deferMeasurement_contract t i).success_iff_changes.mp success)
    obtain ⟨k, line, new, hline, hnew, -⟩ := Fix.mem_changes_deferMeasurement_iff.mp hc
    refine ⟨line, List.mem_of_getElem? hline, ?_⟩
    by_contra hearly
    simp [Fix.deferred?, hearly] at hnew
  obtain ⟨m, hm⟩ := occurs_iff.mp hearly
  obtain ⟨-, hread⟩ := firstMatch?_reads hm
  obtain ⟨before, tail, ht⟩ := (infix_iff_lines (newline_not_mem_of_mem_lines hline)).mpr
    ⟨line, hline, List.infix_rfl⟩
  obtain ⟨u, v, e, hne, hread⟩ := Idiom.earlyMeasurement_of_line hread
    (before ++ m.before).getLast? tail
  refine hits_ne_nil_iff.mpr ⟨before ++ m.before, u, v, ?_, hne, hread⟩
  rw [← e, ← ht, ← firstMatch?_eq_some hm]
  simp

/-! ## Agreement -/

/-- **Rules and transforms agree**: output to the console and unused imports are reported exactly if
they are repaired, and entanglements, superpositions and measurements that are repaired are
reported. -/
theorem rules_agree (t : Text) (i : Issue) :
    (Rule.consoleLogging.Reports t ↔ TransformKind.replaceConsoleLog.Succeeds t i) ∧
    (Rule.unusedImports.Reports t ↔ TransformKind.pruneImports.Succeeds t i) ∧
    (TransformKind.bindEntanglement.Succeeds t i → Rule.entanglementLeak.Reports t) ∧
    (TransformKind.collapseSuperposition.Succeeds t i → Rule.superpositionMisuse.Reports t) ∧
    (TransformKind.deferMeasurement.Succeeds t i → Rule.measurementTiming.Reports t) := by
  have hok : ∀ f : Fix, (∃ f', Except.ok (ε := FixError) f = .ok f' ∧ f'.success) ↔ f.success := by
    intro f
    simp
  refine ⟨?logging, ?imports, ?entanglement, ?superposition, ?timing⟩
  case logging =>
    rw [Rule.reports_iff rfl, Rule.firstHit_ne_nil_iff, Idiom.hits_consoleLog_iff]
    exact (success_replaceConsoleLog_iff.symm).trans (hok _).symm
  case imports =>
    rw [Rule.reports_iff rfl]
    exact (success_pruneImports_iff.symm).trans (hok _).symm
  case entanglement =>
    rintro ⟨f, hf, success⟩
    rw [Rule.reports_iff rfl, Rule.firstHit_ne_nil_iff]
    exact reports_of_bindEntanglement (i := i) hf success
  case superposition =>
    intro h
    rw [Rule.reports_iff rfl, Rule.firstHit_ne_nil_iff]
    exact reports_of_collapseSuperposition ((hok _).mp h)
  case timing =>
    intro h
    rw [Rule.reports_iff rfl, Rule.firstHit_ne_nil_iff]
    exact reports_of_deferMeasurement ((hok _).mp h)

/-- A bare entanglement behind an indent, a measurement of a collapsed superposition over two lines,
and a measurement with an entanglement behind it. -/
theorem rules_agree_sample :
    let issue : Issue := { rule := "quantum_measurement_timing", description := "" }
    let entangled := "// pair\n  entangle(a, b);\n".toList
    let collapsed := "superposition\n  .collapse() .measure()".toList
    let measured := "f()\nmeasure(q); entangle(q, r)".toList
    (TransformKind.bindEntanglement.Succeeds entangled issue ∧
      Rule.entanglementLeak.Reports entangled) ∧
    (TransformKind.collapseSuperposition.Succeeds collapsed issue ∧
      Rule.superpositionMisuse.Reports collapsed) ∧
    (TransformKind.deferMeasurement.Succeeds measured issue ∧
      Rule.measurementTiming.Reports measured) := by
  intro issue entangled collapsed measured
  have hbound : TransformKind.bindEntanglement.Succeeds entangled issue := by
    cases h : Fix.bindEntanglement entangled issue with
    | error e =>
      have hok : (Fix.bindEntanglement entangled issue).toBool = true := by decide +kernel
      rw [h] at hok
      cases hok
    | ok f =>
      have hsuccess : (Fix.bindEntanglement entangled issue).toOption.map (·.success) =
          some true := by decide +kernel
      rw [h] at hsuccess
      exact ⟨f, h, Option.some.inj hsuccess⟩
  have hcorrected : TransformKind.collapseSuperposition.Succeeds collapsed issue :=
    ⟨_, rfl, by decide +kernel⟩
  have hdeferred : TransformKind.deferMeasurement.Succeeds measured issue :=
    ⟨_, rfl, by decide +kernel⟩
  exact ⟨⟨hbound, (rules_agree entangled issue).2.2.1 hbound⟩,
    ⟨hcorrected, (rules_agree collapsed issue).2.2.2.1 hcorrected⟩,
    ⟨hdeferred, (rules_agree measured issue).2.2.2.2 hdeferred⟩⟩

end Mend

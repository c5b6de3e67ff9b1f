import Mend.Proofs.Fix.Pruning
import Mend.Proofs.Rule

/-!
# Imports that only pruned imports mention

A pruning goes down a text once. So an import stays for the sake of an import further down that
mentions a name of it, also if that one is then pruned; and nothing goes back to it.

* `findUnusedImport_ne_nil_iff`: the imports that the rule reports, without the order in which it
  looks for them.
* `Strands`: a pruning that leaves an import without a use.
* `pruneImports_complete_iff`: a pruning is complete exactly if it strands nothing.
-/

namespace Mend

open Text Idiom

namespace Rule

theorem isUnused_unlines_iff {l : ImportLine} {ls : List Text} : isUnused l (unlines ls) ↔
    ∃ s ∈ importSpecifiers l.inside, ∀ line ∈ ls, ¬ mentions (boundName s) line := by
  rw [isUnused, List.any_eq_true]
  refine exists_congr fun s => and_congr_right fun hs => ?_
  rw [Bool.not_eq_true', ← Bool.not_eq_true,
    mentions_unlines_iff (boundName_of_mem_importSpecifiers hs).1 (newline_outside_boundName hs)]
  push Not
  rfl

/-- **The rule reports an import exactly if it has a specifier that no other line mentions.** -/
theorem findUnusedImport_ne_nil_iff {before after : List Text} :
    findUnusedImport before after ≠ [] ↔ ∃ above line below l,
      after = above ++ line :: below ∧ importLine? line = some l ∧
      ∃ s ∈ importSpecifiers l.inside,
        ∀ other ∈ before.reverse ++ (above ++ below), ¬ mentions (boundName s) other := by
  induction after generalizing before with
  | nil => simp [findUnusedImport]
  | cons line after ih =>
    -- an import further down has the line above it
    have hlater : findUnusedImport (line :: before) after ≠ [] ↔ ∃ above line' below l,
        after = above ++ line' :: below ∧ importLine? line' = some l ∧
        ∃ s ∈ importSpecifiers l.inside,
          ∀ other ∈ before.reverse ++ (line :: above ++ below), ¬ mentions (boundName s) other := by
      rw [ih, List.reverse_cons]
      simp only [List.append_assoc, List.cons_append, List.nil_append]
    rw [findUnusedImport]
    constructor
    · intro h
      split at h
      · obtain ⟨above, line', below, l, rfl, hunused⟩ := hlater.mp h
        exact ⟨line :: above, line', below, l, rfl, hunused⟩
      · next l hl =>
        split at h
        · next hunused =>
          rw [List.reverseAux_eq] at hunused
          exact ⟨[], line, after, l, rfl, hl, isUnused_unlines_iff.mp hunused⟩
        · obtain ⟨above, line', below, l, rfl, hunused⟩ := hlater.mp h
          exact ⟨line :: above, line', below, l, rfl, hunused⟩
    · rintro ⟨above, line', below, l, e, hl, hs⟩
      cases above with
      | nil =>
        obtain ⟨rfl, rfl⟩ := List.cons.inj e
        have hunused : isUnused l (unlines (before.reverseAux after)) := by
          rw [List.reverseAux_eq]
          exact isUnused_unlines_iff.mpr hs
        rw [hl]
        exact (congrArg (· ≠ []) (if_pos hunused)).mpr (List.cons_ne_nil _ _)
      | cons first above =>
        obtain ⟨rfl, rfl⟩ := List.cons.inj e
        have hrest := hlater.mpr ⟨above, line', below, l, rfl, hl, hs⟩
        split
        · exact hrest
        · split
          · exact List.cons_ne_nil _ _
          · exact hrest

end Rule

namespace Fix

theorem leftovers_eq_append_cons_iff {rows : List Row} {a b : List Text} {line : Text} :
    Row.leftovers rows = a ++ line :: b ↔ ∃ above row below, rows = above ++ row :: below ∧
      row.left = some line ∧ Row.leftovers above = a ∧ Row.leftovers below = b := by
  constructor
  · intro h
    obtain ⟨above, rest, rfl, ha, hrest⟩ := List.filterMap_eq_append_iff.mp h
    obtain ⟨gone, row, below, rfl, hgone, hleft, hbelow⟩ := List.filterMap_eq_cons_iff.mp hrest
    refine ⟨above ++ gone, row, below, by simp, hleft, ?_, hbelow⟩
    rw [Row.leftovers_append, Row.leftovers, ha, Row.leftovers,
      List.filterMap_eq_nil_iff.mpr hgone, List.append_nil]
  · rintro ⟨above, row, below, rfl, hleft, rfl, rfl⟩
    rw [Row.leftovers_append, Row.leftovers_cons, hleft]
    rfl

/-- A specifier stays although nothing mentions it: the lines below mention it before they are
pruned, and what is left of the other lines does not. -/
def Strands (t : Text) : Prop :=
  ∃ above row below l, rowsOf t = above ++ row :: below ∧ importLine? row.line = some l ∧
    ∃ s ∈ importSpecifiers l.inside,
      (∃ line ∈ below.map Row.line, mentions (boundName s) line) ∧
      ∀ other ∈ Row.leftovers above ++ Row.leftovers below, ¬ mentions (boundName s) other

variable (t : Text)

/-- What is left without a use among the lines that are left was stranded. -/
theorem strands_iff : Strands t ↔ Rule.findUnusedImport [] (Row.leftovers (rowsOf t)) ≠ [] := by
  rw [Rule.findUnusedImport_ne_nil_iff]
  constructor
  · rintro ⟨above, row, below, l, hrows, hl, s, hs, ⟨line, hline, hmentions⟩, hnone⟩
    have hneeded : s ∈ neededSpecifiers l (Row.leftovers above ++ below.map Row.line) :=
      mem_neededSpecifiers.mpr ⟨hs, line, List.mem_append_right _ hline, hmentions⟩
    obtain ⟨new, l', left, hl', hspecifiers⟩ := exists_leftOf hl (List.ne_nil_of_mem hneeded)
    have hsplit : Row.leftovers (rowsOf t) = Row.leftovers above ++ new :: Row.leftovers below :=
      leftovers_eq_append_cons_iff.mpr
        ⟨above, row, below, hrows, (left_of_rowsOf t hrows).trans left, rfl, rfl⟩
    exact ⟨_, new, _, l', hsplit, hl', s, hspecifiers ▸ hneeded, hnone⟩
  · rintro ⟨a, new, b, l', hsplit, hl', s, hs, hnone⟩
    obtain ⟨above, row, below, hrows, left, rfl, rfl⟩ := leftovers_eq_append_cons_iff.mp hsplit
    rw [left_of_rowsOf t hrows] at left
    obtain ⟨l, hl, hspecifiers⟩ := importLine?_of_leftOf left hl'
    rw [hspecifiers] at hs
    obtain ⟨hmem, other, hother, hmentions⟩ := mem_neededSpecifiers.mp hs
    refine ⟨above, row, below, l, hrows, hl, s, hmem, ⟨other, ?_, hmentions⟩, hnone⟩
    refine (List.mem_append.mp hother).resolve_left fun habove => ?_
    exact hnone other (List.mem_append_right _ (List.mem_append_left _ habove)) hmentions

theorem findUnusedImport_pruneImports (i : Issue) :
    Rule.findUnusedImport [] (lines (pruneImports t i).fixed) ≠ [] ↔ Strands t := by
  rw [strands_iff, (pruneImports_rows t i).1]
  by_cases h : Row.leftovers (rowsOf t) = []
  · rw [h]
    exact iff_of_false (by decide) (by decide)
  · rw [lines_unlines h (newline_not_mem_leftovers t)]

/-- **A pruning is complete exactly if it strands nothing**: then the rule reports no unused import
any more, and a second pruning finds nothing to do. -/
theorem pruneImports_complete_iff (i : Issue) :
    (Rule.unusedImports.Reports (pruneImports t i).fixed ↔ Strands t) ∧
    ((pruneImports (pruneImports t i).fixed i).success ↔ Strands t) := by
  rw [Rule.reports_iff rfl, success_pruneImports_iff]
  exact ⟨findUnusedImport_pruneImports t i, findUnusedImport_pruneImports t i⟩

/-- **A name that only an import further down mentions, which is then taken away, is left without a
use.** -/
theorem pruneImports_leaves_unused :
    let issue : Issue := { rule := "unused_imports", description := "" }
    let t := "import \x7b a \x7d from './a'\nimport \x7b a as b \x7d from './b'".toList
    let fixed := "import \x7b a \x7d from './a'".toList
    (pruneImports t issue).success ∧ (pruneImports t issue).fixed = fixed ∧
    Rule.unusedImports.Reports fixed ∧ (pruneImports fixed issue).success := by
  intro issue t fixed
  exact ⟨rfl, rfl, (Rule.reports_iff rfl).mpr (List.cons_ne_nil _ _), rfl⟩

end Fix

end Mend

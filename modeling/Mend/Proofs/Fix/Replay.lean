import Mend.Fix.Transform
import Mend.Proofs.Fix.Audit
import Mend.Proofs.Fix.Hygiene
import Mend.Proofs.Fix.Names
import Mend.Proofs.Fix.Place
import Mend.Proofs.Fix.Quantum

/-!
# The changes of the transforms account for their texts

Transforms of one line, of every line and of spans record their changes in the same three ways. A
transform that also inserts an import records it behind all other changes, though it goes above
them. Where superpositions are collapsed the changes are no audit: those of the second pass are
about what the first one has left.

* `transform_audit`: the changes of every other transform are an audit of its fix.
-/

namespace Mend

open Text

namespace Fix

/-! ## Changes of one line -/

section Line

variable {gap : List Text} {t : Text} {ls block : List Text} {k : Nat} {c : Change}

theorem rewritten_replaceLine (hk : k < ls.length) (number : c.line = k + 1)
    (before : c.before = some (ls.getD k [])) :
    Rewritten 1 ls [c] (replaceLine ls k c.after.toList) := by
  have hsplit : ls.take k ++ ls.getD k [] :: ls.drop (k + 1) = ls := by
    rw [List.getD_eq_getElem _ _ hk, List.getElem_cons_drop, List.take_append_drop]
  have hlength : (ls.take k).length = k := List.length_take_of_le (le_of_lt hk)
  have hline : Rewritten (1 + (ls.take k).length) (ls.getD k [] :: ls.drop (k + 1)) [c]
      (c.after.toList ++ ls.drop (k + 1)) :=
    .replace (by rw [number, hlength]; omega) before (.refl _ _)
  have hpass := (Rewritten.refl 1 (ls.take k)).append hline
  rw [hsplit, List.nil_append, ← List.append_assoc] at hpass
  exact hpass

/-- A change that puts a block in the place of one line. -/
theorem LineAudit.of_replaceLine (hk : k < (lines t).length) (nonempty : block ≠ [])
    (number : c.line = k + 1) (before : c.before = some ((lines t).getD k []))
    (after : c.after = some (unlines block)) :
    LineAudit gap t [c] (unlines (replaceLine (lines t) k block)) := by
  have hpass := rewritten_replaceLine hk number before
  rw [after, Option.toList_some, replaceLine, List.append_assoc, List.singleton_append] at hpass
  rw [replaceLine, ← unlines_unlines nonempty]
  exact .of_rewritten hpass

/-- A change that inserts a block above one line. -/
theorem LineAudit.of_insertAbove (hk : k < (lines t).length) (nonempty : block ≠ [])
    (number : c.line = k + 1) (before : c.before = none) (after : c.after = some (unlines block)) :
    LineAudit [] t [c] (unlines (insertAbove (lines t) k block)) := by
  have hlength : ((lines t).take k).length = k := List.length_take_of_le (le_of_lt hk)
  have hbelow : (lines t).drop k ≠ [] := by
    rw [ne_eq, List.drop_eq_nil_iff]
    exact not_le.mpr hk
  have haudit : LineAudit [] t ([] ++ [] ++ [c])
      (unlines ((lines t).take k ++ (c.after.toList ++ [] ++ (lines t).drop k))) :=
    .of_insertion (List.take_append_drop k (lines t)).symm hbelow (.refl 1 _) (.refl _ _) before
      (by rw [number, hlength]; omega)
  simp only [after, Option.toList_some, List.append_nil, List.nil_append,
    List.singleton_append] at haudit
  rw [unlines_unlines nonempty] at haudit
  exact haudit

/-- A pass over all lines with an import above the first of them. -/
theorem LineAudit.of_import {cs : List Change} {out : List Text} (h : Rewritten 1 (lines t) cs out)
    (number : c.line = 1) (before : c.before = none) :
    LineAudit gap t (cs ++ [c]) (unlines (c.after.toList ++ gap ++ out)) :=
  .of_insertion (List.nil_append (lines t)).symm (lines_ne_nil t) .nil h before number

end Line

theorem addErrorHandling_audit (t : Text) (i : Issue) :
    LineAudit [] t (addErrorHandling t i).changes (addErrorHandling t i).fixed := by
  rw [addErrorHandling]
  cases h : place? (lines t) i (isUnwrapped (lines t).toArray) with
  | none => exact .nothing t
  | some k => exact .of_replaceLine (place?_lt h) (List.cons_ne_nil _ _) rfl rfl rfl

theorem removeRedundantAsync_audit (t : Text) (i : Issue) :
    LineAudit [] t (removeRedundantAsync t i).changes (removeRedundantAsync t i).fixed := by
  rw [removeRedundantAsync]
  dsimp only
  split
  · exact .nothing t
  · next k h =>
    exact .of_replaceLine (place?_lt h) (List.cons_ne_nil _ _) rfl rfl (by simp [unlines])

theorem annotateComplexity_audit (t : Text) (i : Issue) :
    LineAudit [] t (annotateComplexity t i).changes (annotateComplexity t i).fixed := by
  rw [annotateComplexity]
  cases h : place? (lines t) i fun _ => true with
  | none => exact .nothing t
  | some k => exact .of_insertAbove (place?_lt h) (List.cons_ne_nil _ _) rfl rfl rfl

theorem protectMeasurement_audit (t : Text) (i : Issue) :
    LineAudit [] t (protectMeasurement t i).changes (protectMeasurement t i).fixed := by
  rw [protectMeasurement]
  dsimp only
  split
  · exact .nothing t
  · next k h =>
    dsimp only
    split
    · exact .of_replaceLine (place?_lt h) (List.cons_ne_nil _ _) rfl rfl (by simp [unlines])
    · exact .of_import (rewritten_replaceLine (place?_lt h) rfl rfl) rfl rfl

/-! ## Changes of every line -/

/-- A pass that edits lines by themselves, where `edit` says what becomes of a line that is
changed. -/
theorem rewritten_edit (edit : Text → Option Text) (change : Nat → Text → Text → Change)
    (hnumber : ∀ k line new, (change k line new).line = k + 1)
    (hbefore : ∀ k line new, (change k line new).before = some line)
    (hafter : ∀ k line new, (change k line new).after = some new) (ls : List Text) :
    ∀ k : Nat, Rewritten (k + 1) ls
      ((ls.zipIdx k).filterMap fun row => (edit row.1).map (change row.2 row.1))
      (ls.map fun line => (edit line).getD line) := by
  induction ls with
  | nil => exact fun _ => .nil
  | cons line ls ih =>
    intro k
    have hrest := ih (k + 1)
    rw [List.zipIdx_cons, List.map_cons]
    cases hedit : edit line with
    | none =>
      rw [List.filterMap_cons_none (by rw [hedit]; rfl)]
      exact .keep hrest
    | some new =>
      rw [List.filterMap_cons_some (by rw [hedit]; rfl)]
      have hpass := Rewritten.replace (by rw [hnumber k line new]; rfl) (hbefore k line new) hrest
      rw [hafter] at hpass
      exact hpass

theorem deferMeasurement_audit (t : Text) (i : Issue) :
    LineAudit [] t (deferMeasurement t i).changes (deferMeasurement t i).fixed := by
  rw [changes_deferMeasurement, fixed_deferMeasurement]
  exact .of_rewritten (rewritten_edit deferred? moved (fun _ _ _ => rfl) (fun _ _ _ => rfl)
    (fun _ _ _ => rfl) (lines t) 0)

/-- What becomes of a line that writes to the console. -/
def logged? (line : Text) : Option Text :=
  if hitCount Idiom.consoleLog line = 0 then none else some (logged line)

theorem getD_logged? (line : Text) : (logged? line).getD line = logged line := by
  rw [logged?]
  split
  · next h =>
    have hnone : hits Idiom.consoleLog line = [] := List.eq_nil_of_length_eq_zero h
    rw [Option.getD_none, logged, replaceHits_of_hits_eq_nil hnone]
  · rfl

theorem map_logged? {α : Type} (f : Text → α) (line : Text) :
    (logged? line).map f =
      if hitCount Idiom.consoleLog line = 0 then none else some (f (logged line)) := by
  rw [logged?]
  split <;> rfl

/-- The import of the logger stands two lines above the text. -/
theorem unlines_loggerImport {ls : List Text} (nonempty : ls ≠ []) :
    unlines ([loggerImport] ++ [[]] ++ ls) = loggerImport ++ "\n\n".toList ++ unlines ls := by
  rw [unlines_append (by simp) nonempty]
  simp [unlines, List.intercalate_cons_cons]

theorem replaceConsoleLog_audit (t : Text) (i : Issue) :
    LineAudit [[]] t (replaceConsoleLog t i).changes (replaceConsoleLog t i).fixed := by
  rw [replaceConsoleLog]
  dsimp only
  split
  · exact .nothing t
  · have hpass := rewritten_edit logged? (fun k line new => {
      kind := .modify
      line := k + 1
      description := "Replaced console.log with logger.debug"
      before := some line
      after := some new }) (fun _ _ _ => rfl) (fun _ _ _ => rfl) (fun _ _ _ => rfl) (lines t) 0
    simp only [map_logged?, getD_logged?] at hpass
    rw [List.zipIdx_map, List.filterMap_map, List.map_map]
    split
    · exact .of_rewritten hpass
    · have hne : (lines t).map logged ≠ [] := mt List.map_eq_nil_iff.mp (lines_ne_nil t)
      let added : Change := {
        kind := .add
        line := 1
        description := "Imported logger"
        after := some loggerImport }
      have haudit : LineAudit [[]] t (_ ++ [added]) _ := .of_import hpass rfl rfl
      rw [Option.toList_some, unlines_loggerImport hne] at haudit
      exact haudit

/-! ## Imports -/

namespace Pruning

variable {done : List Text} {s : Pruning} {line : Text}

/-- What a pruning has recorded of the lines that it has gone through. -/
def Recorded (done : List Text) (s : Pruning) : Prop :=
  Rewritten 1 done s.changes.reverse s.kept.reverse

theorem Recorded.keep (h : s.Recorded done) (line : Text) :
    Recorded (done ++ [line]) { s with kept := line :: s.kept } := by
  rw [Recorded, List.reverse_cons]
  exact h.snoc_keep line

theorem Recorded.change {c : Change} {kept : List Text} {removed : Nat} (h : s.Recorded done)
    (number : c.line = (done.length + 1 : Nat)) (before : c.before = some line)
    (hkept : kept.reverse = s.kept.reverse ++ c.after.toList) :
    Recorded (done ++ [line]) ⟨kept, c :: s.changes, removed⟩ := by
  rw [Recorded, List.reverse_cons, hkept]
  exact h.snoc_replace (by rw [number, Nat.add_comm]) before

theorem Recorded.step (h : s.Recorded done) (line : Text) (after : List Text) :
    (s.step (done.length + 1) line after).Recorded (done ++ [line]) := by
  rw [Pruning.step]
  split
  · exact h.keep line
  · dsimp only
    split
    · exact h.keep line
    · split
      · exact h.change rfl rfl (List.append_nil _).symm
      · exact h.change rfl rfl List.reverse_cons

end Pruning

theorem pruneFrom_recorded :
    ∀ {after done : List Text} {s : Pruning}, s.Recorded done →
      (pruneFrom s (done.length + 1) after).Recorded (done ++ after)
  | [], done, s, h => by rwa [pruneFrom, List.append_nil]
  | line :: after, done, s, h => by
    have hdone : done.length + 1 + 1 = (done ++ [line]).length + 1 := by simp
    have happend : done ++ line :: after = done ++ [line] ++ after := by simp
    rw [pruneFrom, hdone, happend]
    exact pruneFrom_recorded (h.step line after)

theorem pruneImports_audit (t : Text) (i : Issue) :
    LineAudit [] t (pruneImports t i).changes (pruneImports t i).fixed := by
  have hnone : Pruning.Recorded [] {} := Rewritten.nil
  have hpass : Pruning.Recorded ([] ++ lines t) (pruneFrom {} 1 (lines t)) :=
    pruneFrom_recorded hnone
  rw [pruneImports]
  split
  · exact .nothing t
  · exact .of_rewritten hpass

/-! ## Changes of spans -/

theorem bindEntanglement_audit {t : Text} {i : Issue} {f : Fix} (h : bindEntanglement t i = .ok f) :
    SpanAudit t 0 f.changes f.fixed := by
  rw [changes_bindEntanglement h, fixed_bindEntanglement h]
  exact spanAudit_scan (fun _ => rfl) (fun _ => rfl) (fun _ => rfl) t

theorem externalizeSecrets_audit (t : Text) (i : Issue) :
    SpanAudit t 0 (externalizeSecrets t i).changes (externalizeSecrets t i).fixed := by
  rw [externalizeSecrets]
  split
  · exact .nothing t
  · exact spanAudit_scan (fun _ => rfl) (fun _ => rfl) (fun _ => rfl) t

end Fix

/-! ## All transforms -/

namespace TransformKind

/-- Whether a transform changes spans of the text, and not whole lines. -/
def changesSpans : TransformKind → Bool
  | bindEntanglement | externalizeSecrets => true
  | _ => false

/-- What follows a line that a transform inserts: behind the import of the logger an empty line. -/
def gap : TransformKind → List Text
  | replaceConsoleLog => [[]]
  | _ => []

end TransformKind

/-- **The changes of every transform but one are an audit of its fix**: whoever replays them on the
text that was given gets the text of the fix. -/
theorem transform_audit {k : TransformKind} {t : Text} {i : Issue} {f : Fix}
    (hk : k ≠ .collapseSuperposition) (h : k.transform t i = .ok f) :
    if k.changesSpans then Fix.SpanAudit t 0 f.changes f.fixed
    else Fix.LineAudit k.gap t f.changes f.fixed := by
  cases k with
  | addErrorHandling => exact Except.ok.inj h ▸ Fix.addErrorHandling_audit t i
  | removeRedundantAsync => exact Except.ok.inj h ▸ Fix.removeRedundantAsync_audit t i
  | protectMeasurement => exact Except.ok.inj h ▸ Fix.protectMeasurement_audit t i
  | bindEntanglement => exact Fix.bindEntanglement_audit (i := i) h
  | replaceConsoleLog => exact Except.ok.inj h ▸ Fix.replaceConsoleLog_audit t i
  | externalizeSecrets => exact Except.ok.inj h ▸ Fix.externalizeSecrets_audit t i
  | collapseSuperposition => exact absurd rfl hk
  | pruneImports => exact Except.ok.inj h ▸ Fix.pruneImports_audit t i
  | annotateComplexity => exact Except.ok.inj h ▸ Fix.annotateComplexity_audit t i
  | deferMeasurement => exact Except.ok.inj h ▸ Fix.deferMeasurement_audit t i

/-- An import that is removed and one that is shortened, and two secrets, one of them across
lines. -/
theorem transform_audit_sample :
    let issue : Issue := { rule := "unused_imports", description := "" }
    let imports :=
      "import \x7b run \x7d from './a'\nimport \x7b walk, go \x7d from './b'\ngo()".toList
    let pruned := "import \x7b go \x7d from './b'\ngo()".toList
    let secrets := "a: 'abcdefghijklmnopqrst', b\n = \"ABCDEFGHIJKLMNOPQRST\"".toList
    ((Fix.pruneImports imports issue).changes.map (·.line) = [1, 2] ∧
      Fix.LineAudit [] imports (Fix.pruneImports imports issue).changes pruned) ∧
    ((Fix.externalizeSecrets secrets issue).changes.map (·.line) = [1, 1] ∧
      Fix.SpanAudit secrets 0 (Fix.externalizeSecrets secrets issue).changes
        (Fix.externalizeSecrets secrets issue).fixed) := by
  intro issue imports pruned secrets
  refine ⟨⟨by decide +kernel, ?_⟩, by decide +kernel, ?_⟩
  · have hfixed : (Fix.pruneImports imports issue).fixed = pruned := by decide +kernel
    rw [← hfixed]
    exact transform_audit (k := .pruneImports) (i := issue) (by decide) rfl
  · exact transform_audit (k := .externalizeSecrets) (i := issue) (by decide) rfl

end Mend

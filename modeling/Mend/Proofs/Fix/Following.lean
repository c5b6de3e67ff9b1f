import Mend.Proofs.Fix.Replay
import Mend.Proofs.Fix.Shift

/-!
# Lines that fixes leave alone

A fix is followed by its changes, round by round: where superpositions are collapsed, the changes of
the second round are about what the first one has left, and every other fix has one round.

* `Fix.follow`: where a line comes to stand by a fix, unless the fix changes it.
* `keeps_of_transform`, `keeps_collapseSuperposition`: **every transform keeps the lines that its
  changes do not touch**.
-/

namespace Mend

open Text

namespace Fix

/-- The strategy that makes its changes in two rounds. -/
def twofold : String := "fix_superposition_misuse"

/-- The changes of a fix, round by round. -/
def rounds (f : Fix) : List (List Change) :=
  if f.strategy = twofold then
    [f.changes.filter (·.after == some singleCollapse),
      f.changes.filter (·.after != some singleCollapse)]
  else [f.changes]

/-- The index at which the line at index `k` comes to stand by a fix, if no change touches it. -/
def follow (f : Fix) (k : Nat) : Option Nat := f.rounds.foldlM (fun k cs => carry cs k) k

variable {gap : List Text} {t : Text} {i : Issue} {cs : List Change}

/-! ## Insertions -/

theorem Spaced.of_isSome (h : ∀ c ∈ cs, c.before.isSome) : Spaced gap cs := by
  intro c hc hbefore
  have hsome := h c hc
  rw [hbefore] at hsome
  cases hsome

theorem Spaced.nil : Spaced gap [] := fun _ hc => absurd hc List.not_mem_nil

theorem Spaced.append {ds : List Change} (h : Spaced gap cs) (h' : Spaced gap ds) :
    Spaced gap (cs ++ ds) :=
  fun c hc => (List.mem_append.mp hc).elim (h c) (h' c)

theorem spaced_addErrorHandling (t : Text) (i : Issue) :
    Spaced [] (addErrorHandling t i).changes := by
  unfold addErrorHandling
  dsimp only
  split
  · exact .nil
  · exact .of_isSome (by simp)

theorem spaced_removeRedundantAsync (t : Text) (i : Issue) :
    Spaced [] (removeRedundantAsync t i).changes := by
  unfold removeRedundantAsync
  dsimp only
  split
  · exact .nil
  · exact .of_isSome (by simp)

/-- Advice has two lines, and so is no import. -/
theorem spaced_annotateComplexity (t : Text) (i : Issue) :
    Spaced [] (annotateComplexity t i).changes := by
  unfold annotateComplexity
  dsimp only
  split
  · exact .nil
  next k hk =>
  have hadvice : ∀ margin, unlines (advice margin) ≠ loggerImport := by
    intro margin heq
    have hnewline : '\n' ∈ unlines (advice margin) := by simp [advice, unlines]
    rw [heq] at hnewline
    exact absurd hnewline (by decide)
  intro c hc _
  obtain rfl := List.mem_singleton.mp hc
  refine ⟨by dsimp only; omega, ?_⟩
  simp [Change.spaced, hadvice]

theorem spaced_protectMeasurement (t : Text) (i : Issue) :
    Spaced [] (protectMeasurement t i).changes := by
  have himport : protectionImport ≠ loggerImport := by decide
  unfold protectMeasurement
  dsimp only
  split
  · exact .nil
  dsimp only
  split
  · exact .of_isSome (by simp)
  · refine (Spaced.of_isSome (List.forall_mem_singleton.mpr rfl)).append fun c hc _ => ?_
    obtain rfl := List.mem_singleton.mp hc
    exact ⟨Int.le_refl 1, by simp [Change.spaced, himport]⟩

theorem spaced_deferMeasurement (t : Text) (i : Issue) :
    Spaced [] (deferMeasurement t i).changes := by
  refine .of_isSome fun c hc => ?_
  obtain ⟨k, old, new, -, -, rfl⟩ := mem_changes_deferMeasurement_iff.mp hc
  rfl

theorem spaced_replaceConsoleLog (t : Text) (i : Issue) :
    Spaced [[]] (replaceConsoleLog t i).changes := by
  unfold replaceConsoleLog
  dsimp only
  split
  · exact .nil
  next =>
  have hreplaced : ∀ rows : List ((Text × Nat) × Nat), Spaced [[]] (rows.filterMap fun row =>
      if row.1.2 = 0 then none else some {
        kind := .modify
        line := row.2 + 1
        description := "Replaced console.log with logger.debug"
        before := some row.1.1
        after := some (logged row.1.1) }) := by
    refine fun rows => .of_isSome fun c hc => ?_
    obtain ⟨row, -, hrow⟩ := List.mem_filterMap.mp hc
    split at hrow
    · cases hrow
    · rw [← Option.some.inj hrow]
      rfl
  dsimp only
  split
  · exact hreplaced _
  · refine (hreplaced _).append fun c hc _ => ?_
    obtain rfl := List.mem_singleton.mp hc
    exact ⟨Int.le_refl 1, by simp [Change.spaced, lines]⟩

theorem spaced_pruneImports (t : Text) (i : Issue) : Spaced [] (pruneImports t i).changes := by
  have hnone : Pruning.Recorded [] {} := Rewritten.nil
  have hpass : Pruning.Recorded ([] ++ lines t) (pruneFrom {} 1 (lines t)) :=
    pruneFrom_recorded hnone
  unfold pruneImports
  dsimp only
  split
  · exact .nil
  · exact .of_isSome fun c hc => hpass.isSome_of_mem hc

/-! ## Superpositions -/

/-- What becomes of a text when superpositions are collapsed, and how it is recorded. -/
theorem keeps_collapseSuperposition (t : Text) (i : Issue) :
    KeepsLines (fun k =>
      (carry ((collapseSuperposition t i).changes.filter (·.after == some singleCollapse)) k).bind
        (carry ((collapseSuperposition t i).changes.filter (·.after != some singleCollapse))))
      t (collapseSuperposition t i).fixed := by
  have hkeeps : ∀ (p : Pattern) [∀ b, Reader.Within (p b)] (new : Text) (description : String)
      (t : Text), KeepsLines (carry (uniformChanges p new description t)) t
        (replaceHits p (fun _ => new) t) := fun p _ new description t =>
    (spanAudit_scan (fun _ => rfl) (fun _ => rfl) (fun _ => rfl) t).keeps
  have hafter : ∀ {p : Pattern} {new : Text} {description : String} {t : Text} {c : Change},
      c ∈ uniformChanges p new description t → c.after = some new := by
    intro p new description t c hc
    obtain ⟨h, -, rfl⟩ := List.mem_map.mp hc
    rfl
  have hnoted : notedCollapse ≠ singleCollapse := by decide
  unfold collapseSuperposition
  dsimp only
  split
  · intro k k' line hline hk
    simp only [nothing, List.filter_nil, carry_nil, Option.bind_some, Option.some.injEq] at hk
    exact hk ▸ ⟨hline, id⟩
  next =>
  dsimp only
  rw [List.filter_append, List.filter_append, List.filter_eq_self.mpr, List.filter_eq_nil_iff.mpr,
    List.filter_eq_nil_iff.mpr, List.filter_eq_self.mpr, List.append_nil, List.nil_append]
  · exact (hkeeps _ _ _ t).trans (hkeeps _ _ _ _)
  · exact fun c hc => by simp [hafter hc, hnoted]
  · exact fun c hc => by simp [hafter hc]
  · exact fun c hc => by simp [hafter hc, hnoted]
  · exact fun c hc => by simp [hafter hc]

end Fix

/-! ## All transforms -/

/-- A transform of one round keeps the lines that its changes do not touch. -/
theorem keeps_of_transform {k : TransformKind} {t : Text} {i : Issue} {f : Fix}
    (hk : k ≠ .collapseSuperposition) (h : k.transform t i = .ok f) :
    KeepsLines (carry f.changes) t f.fixed := by
  cases k with
  | addErrorHandling =>
    exact Except.ok.inj h ▸ (Fix.addErrorHandling_audit t i).keeps (Fix.spaced_addErrorHandling t i)
  | removeRedundantAsync =>
    exact Except.ok.inj h ▸
      (Fix.removeRedundantAsync_audit t i).keeps (Fix.spaced_removeRedundantAsync t i)
  | protectMeasurement =>
    exact Except.ok.inj h ▸
      (Fix.protectMeasurement_audit t i).keeps (Fix.spaced_protectMeasurement t i)
  | bindEntanglement => exact (Fix.bindEntanglement_audit (i := i) h).keeps
  | replaceConsoleLog =>
    exact Except.ok.inj h ▸
      (Fix.replaceConsoleLog_audit t i).keeps (Fix.spaced_replaceConsoleLog t i)
  | externalizeSecrets => exact Except.ok.inj h ▸ (Fix.externalizeSecrets_audit t i).keeps
  | collapseSuperposition => exact absurd rfl hk
  | pruneImports =>
    exact Except.ok.inj h ▸ (Fix.pruneImports_audit t i).keeps (Fix.spaced_pruneImports t i)
  | annotateComplexity =>
    exact Except.ok.inj h ▸
      (Fix.annotateComplexity_audit t i).keeps (Fix.spaced_annotateComplexity t i)
  | deferMeasurement =>
    exact Except.ok.inj h ▸ (Fix.deferMeasurement_audit t i).keeps (Fix.spaced_deferMeasurement t i)

/-- **Every fix keeps the lines that none of its changes touches**, if it bears the name of its
strategy. -/
theorem keeps_follow {k : TransformKind} {t : Text} {i : Issue} {f : Fix}
    (h : k.transform t i = .ok f) {strategy rule : String}
    (hstrategy : strategy = Fix.twofold ↔ k = .collapseSuperposition) :
    KeepsLines { f with strategy, rule }.follow t f.fixed := by
  unfold Fix.follow Fix.rounds
  dsimp only
  by_cases hk : k = .collapseSuperposition
  · obtain rfl := hk
    obtain rfl := Except.ok.inj h
    rw [if_pos (hstrategy.mpr rfl)]
    simp only [List.foldlM_cons, List.foldlM_nil, bind_pure]
    exact Fix.keeps_collapseSuperposition t i
  · rw [if_neg (mt hstrategy.mp hk)]
    simp only [List.foldlM_cons, List.foldlM_nil, bind_pure]
    exact keeps_of_transform hk h

end Mend

import Mathlib.Data.List.Perm.Basic
import Mend.Verification

/-!
# The balance of a verification

Issues are compared by their rules, and new ones by their severities; nothing else about them and no
order counts. What is resolved is what is missing once the new issues are set aside, and never less
than nothing.

* `perm_newIssues`: the kinds of the new issues depend on the kinds of the issues only.
* `known_add_introduced`: every issue behind a session is of a known rule or new.
* `resolved_eq`: what is resolved are the issues that those of known rules do not make up for.
* `compare_balances`: what a verification depends on, and how its numbers and verdicts agree.
-/

namespace Mend

/-- The kind of an issue: its rule and its severity. -/
def Issue.kind (i : Issue) : String × Severity := (i.rule, i.severity)

namespace Verification

/-- The issues of rules that had an issue before. -/
def knownIssues (before after : List Issue) : List Issue :=
  after.filter fun i => before.any (·.rule == i.rule)

variable {before before' after after' : List Issue}

/-! ## New issues -/

theorem map_kind_newIssues (before after : List Issue) :
    (newIssues before after).map Issue.kind =
      (after.map Issue.kind).filter fun k => !(before.map Issue.kind).any (·.1 == k.1) := by
  unfold newIssues
  rw [List.filter_map]
  congr 2
  funext i
  simp [Issue.kind, Function.comp_def]

/-- **The kinds of the new issues depend on the kinds of the issues only**, whatever their order. -/
theorem perm_newIssues (hbefore : (before.map Issue.kind).Perm (before'.map Issue.kind))
    (hafter : (after.map Issue.kind).Perm (after'.map Issue.kind)) :
    ((newIssues before after).map Issue.kind).Perm ((newIssues before' after').map Issue.kind) := by
  rw [map_kind_newIssues, map_kind_newIssues]
  simp only [hbefore.any_eq]
  exact hafter.filter _

/-- Whether new issues are critical can be told from their kinds. -/
theorem any_critical_eq (issues : List Issue) :
    issues.any (·.severity == .critical) =
      (issues.map Issue.kind).any (·.2 == Severity.critical) := by
  simp [Issue.kind, Function.comp_def]

/-- **Issues of the same kinds are compared alike**, whatever their order. -/
theorem compare_congr (hbefore : (before.map Issue.kind).Perm (before'.map Issue.kind))
    (hafter : (after.map Issue.kind).Perm (after'.map Issue.kind)) :
    compare before after = compare before' after' := by
  have hnew := perm_newIssues hbefore hafter
  have hbeforeLength : before.length = before'.length := by simpa using hbefore.length_eq
  have hafterLength : after.length = after'.length := by simpa using hafter.length_eq
  have hnewLength : (newIssues before after).length = (newIssues before' after').length := by
    simpa using hnew.length_eq
  unfold compare
  dsimp only
  rw [any_critical_eq, any_critical_eq, hnew.any_eq, hbeforeLength, hafterLength, hnewLength]

/-! ## The balance -/

@[simp] theorem introduced_compare (before after : List Issue) :
    (compare before after).introduced = (newIssues before after).length := rfl

/-- Every issue behind a session is of a known rule or new. -/
theorem known_add_introduced (before after : List Issue) :
    (knownIssues before after).length + (compare before after).introduced = after.length := by
  have hsplit : after.length = (knownIssues before after).length + (newIssues before after).length :=
    List.length_eq_length_filter_add _
  rw [introduced_compare, hsplit, Int.natCast_add]

/-- **What is resolved are the issues that those of known rules do not make up for.** -/
theorem resolved_eq (before after : List Issue) :
    (compare before after).resolved = max 0 (before.length - (knownIssues before after).length) := by
  have hbalance := known_add_introduced before after
  have hresolved : (compare before after).resolved =
      max 0 (before.length + (compare before after).introduced - after.length) := rfl
  omega

/-- There are fewer issues behind a session exactly if more are resolved than introduced. -/
theorem improvement_iff (before after : List Issue) :
    (compare before after).improvement = true ↔
      (compare before after).introduced < (compare before after).resolved := by
  have hresolved := resolved_eq before after
  have hbalance := known_add_introduced before after
  have hnew := introduced_compare before after
  have himprovement : (compare before after).improvement = true ↔ after.length < before.length :=
    decide_eq_true_iff
  rw [himprovement]
  omega

/-- A regression is a new issue. -/
theorem introduced_pos_of_regression (h : (compare before after).regression = true) :
    0 < (compare before after).introduced := by
  obtain ⟨i, hi, -⟩ := List.any_eq_true.mp h
  rw [introduced_compare]
  exact_mod_cast List.length_pos_of_mem hi

/-- **A verification depends on the rules and severities of the issues only**, each as often as it
occurs. There is an improvement exactly if more issues are resolved than introduced, and no
regression without a new issue. The issues of known rules that are found again are not resolved:
if they are no more than there were before, the others are, and the numbers balance; else none is. -/
theorem compare_balances (before after : List Issue) :
    (∀ before' after' : List Issue, (before'.map Issue.kind).Perm (before.map Issue.kind) →
        (after'.map Issue.kind).Perm (after.map Issue.kind) →
        compare before' after' = compare before after) ∧
      ((compare before after).improvement = true ↔
        (compare before after).introduced < (compare before after).resolved) ∧
      ((compare before after).regression = true → 0 < (compare before after).introduced) ∧
      ((knownIssues before after).length ≤ before.length →
        (compare before after).resolved = before.length - (knownIssues before after).length ∧
        before.length - (compare before after).resolved + (compare before after).introduced =
          after.length) ∧
      (before.length < (knownIssues before after).length →
        (compare before after).resolved = 0) := by
  have hresolved := resolved_eq before after
  have hbalance := known_add_introduced before after
  refine ⟨fun _ _ => compare_congr, improvement_iff before after, introduced_pos_of_regression,
    fun hknown => ?_, fun hknown => ?_⟩
  · omega
  · omega

/-- Of three issues one is left, next to a critical one of a new rule; in another order, and seen on
other lines, they are compared alike. -/
theorem compare_balances_sample :
    let a : Issue := { rule := "a", description := "" }
    let b : Issue := { rule := "b", description := "" }
    let c : Issue := { rule := "c", severity := .critical, description := "" }
    compare [a, b, a] [{ b with line := some 2 }, c] = compare [b, a, a] [c, b] ∧
      (compare [b, a, a] [c, b]).regression = true ∧
      0 < (compare [b, a, a] [c, b]).introduced ∧ (compare [b, a, a] [c, b]).resolved = 2 ∧
      (compare [a] [a, a]).resolved = 0 := by
  intro a b c
  obtain ⟨halike, -, hregression, hbalance, -⟩ := compare_balances [b, a, a] [c, b]
  refine ⟨halike _ _ (by decide) (by decide), by decide, hregression (by decide),
    (hbalance (by decide)).1, (compare_balances [a] [a, a]).2.2.2.2 (by decide)⟩

end Verification

end Mend

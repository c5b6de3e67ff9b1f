import Mend.Proofs.Selection
import Mend.Proofs.Sorting

/-!
# How a plan divides and orders issues

A plan takes every issue once, into the bucket of the strategy that is selected for it. What is
repaired is listed by priority, and issues of one priority keep the order in which they were
detected.

* `Prioritized`: a list in the order of priority that keeps the order of another list within one
  priority.
* `prioritized_byPriority`: that is how issues are listed.
* `perm_buckets`: buckets neither lose issues nor double them.
* `make_divides`: a plan divides the issues by the strategies selected for them.
-/

namespace Mend.Plan

/-! ## The order of priority -/

/-- The issues of `given` in the order of their priority, highest first, and in the order of `given`
within one priority. -/
structure Prioritized (listed given : List Issue) : Prop where
  perm : listed.Perm given
  descending : listed.Pairwise fun a b => b.priority ≤ a.priority
  /-- Of every priority, the same issues come in the same order. -/
  stable : ∀ n, listed.filter (·.priority = n) = given.filter (·.priority = n)

/-- Issues are ranked by priority, highest first. -/
theorem ranks_priority : Ranks fun a b : Issue => decide (b.priority ≤ a.priority) :=
  (Ranks.of_key Issue.priority).flip

theorem prioritized_byPriority (issues : List Issue) : Prioritized (byPriority issues) issues where
  perm := List.mergeSort_perm _ _
  descending :=
    (List.pairwise_mergeSort ranks_priority.trans ranks_priority.total issues).imp of_decide_eq_true
  stable n := by
    refine ranks_priority.filter_mergeSort_of_tied fun a _ b _ ha hb => ?_
    rw [decide_eq_true_iff] at ha hb ⊢
    exact hb.trans_le ha.ge

/-! ## Buckets -/

/-- **Buckets neither lose issues nor double them.** -/
theorem perm_buckets (bucket : Issue → Bucket) (issues : List Issue) :
    (issues.filter (bucket · = .safe) ++ issues.filter (bucket · = .risky)
      ++ issues.filter (bucket · = .manual)).Perm issues := by
  induction issues with
  | nil => exact .refl _
  | cons i issues ih =>
    cases h : bucket i with
    | safe => simpa [h] using ih
    | risky =>
      simp only [List.filter_cons, h, reduceCtorEq, decide_false, decide_true, Bool.false_eq_true,
        if_false, if_true, List.append_assoc, List.cons_append] at ih ⊢
      exact List.perm_middle.trans (ih.cons i)
    | manual =>
      simp only [List.filter_cons, h, reduceCtorEq, decide_false, decide_true, Bool.false_eq_true,
        if_false, if_true] at ih ⊢
      exact List.perm_middle.trans (ih.cons i)

/-! ## Plans -/

/-- What a plan is to be for the strategies that are chosen: every issue is planned once, as safe if
its strategy is simple enough and reaches the first threshold, else as risky if the strategy reaches
the second one, and else as manual. -/
structure Divides {κ : Type} [Confidence κ] (p : Plan) (choice : Issue → Option (Strategy κ))
    (th : Thresholds κ) (issues : List Issue) : Prop where
  perm : (p.safe ++ p.risky ++ p.manual).Perm issues
  mem_safe : ∀ i, i ∈ p.safe ↔
    i ∈ issues ∧ ∃ s, choice i = some s ∧ s.complexity ≠ .complex ∧ th.safe ≤ s.confidence
  mem_risky : ∀ i, i ∈ p.risky ↔
    i ∈ issues ∧ i ∉ p.safe ∧ ∃ s, choice i = some s ∧ th.risky ≤ s.confidence
  mem_manual : ∀ i, i ∈ p.manual ↔ i ∈ issues ∧ i ∉ p.safe ∧ i ∉ p.risky
  safe_order : Prioritized p.safe (issues.filter (· ∈ p.safe))
  risky_order : Prioritized p.risky (issues.filter (· ∈ p.risky))
  /-- Manual issues stay in the order in which they were detected. -/
  manual_order : p.manual.Sublist issues

variable {κ : Type} [Confidence κ]

/-- Risky is what is not safe and reaches the second threshold. -/
theorem bucket_eq_risky_iff_ne_safe {th : Thresholds κ} {o : Option (Strategy κ)} :
    th.bucket o = .risky ↔
      th.bucket o ≠ .safe ∧ ∃ s, o = some s ∧ th.risky ≤ s.confidence := by
  rw [Ne, Thresholds.bucket_eq_risky_iff, Thresholds.bucket_eq_safe_iff]
  constructor
  · rintro ⟨s, rfl, hgate, hrisky⟩
    refine ⟨?_, s, rfl, hrisky⟩
    rintro ⟨s', hs', hgate'⟩
    obtain rfl := Option.some.inj hs'
    exact hgate hgate'
  · rintro ⟨hgate, s, rfl, hrisky⟩
    exact ⟨s, rfl, fun h => hgate ⟨s, rfl, h⟩, hrisky⟩

/-- **A plan divides the issues by the strategies selected for them**, and lists what is repaired by
priority. -/
theorem make_divides (r : Registry κ) (learned : Snapshot κ) (th : Thresholds κ)
    (issues : List Issue) :
    (make r learned th issues).Divides (fun i => r.select learned i.rule) th issues := by
  set bucket : Issue → Bucket := fun i => th.bucket (r.select learned i.rule) with hbucket
  have hsafe : ∀ i, i ∈ (make r learned th issues).safe ↔ i ∈ issues ∧ bucket i = .safe :=
    fun _ => mem_make_safe_iff
  have hrisky : ∀ i, i ∈ (make r learned th issues).risky ↔ i ∈ issues ∧ bucket i = .risky :=
    fun _ => mem_make_risky_iff
  have hmanual : ∀ i, i ∈ (make r learned th issues).manual ↔ i ∈ issues ∧ bucket i = .manual :=
    fun _ => mem_make_manual_iff
  constructor
  case perm =>
    refine List.Perm.trans ?_ (perm_buckets bucket issues)
    exact ((prioritized_byPriority _).perm.append (prioritized_byPriority _).perm).append_right _
  case mem_safe =>
    intro i
    rw [hsafe, hbucket]
    simp only [Thresholds.bucket_eq_safe_iff, and_comm]
  case mem_risky =>
    intro i
    rw [hrisky, hsafe, not_and, hbucket]
    dsimp only
    rw [bucket_eq_risky_iff_ne_safe]
    tauto
  case mem_manual =>
    intro i
    rw [hmanual, hsafe, hrisky]
    cases bucket i <;> simp
  case safe_order =>
    have hlisted : issues.filter (· ∈ (make r learned th issues).safe) =
        issues.filter (bucket · = .safe) :=
      List.filter_congr fun i hi => by simp [hsafe, hi]
    rw [hlisted]
    exact prioritized_byPriority _
  case risky_order =>
    have hlisted : issues.filter (· ∈ (make r learned th issues).risky) =
        issues.filter (bucket · = .risky) :=
      List.filter_congr fun i hi => by simp [hrisky, hi]
    rw [hlisted]
    exact prioritized_byPriority _
  case manual_order => exact List.filter_sublist

end Mend.Plan

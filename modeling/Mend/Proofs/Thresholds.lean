import Mend.Catalog
import Mend.Proofs.Plan

/-!
# Plans under higher thresholds

Thresholds say how much confidence it takes to repair an issue. Where they are raised, whichever of
the two is the higher one, no issue is repaired more readily than before, and the issues that are
still repaired at once are listed as they were.

* `Thresholds.rank_bucket_le_of_le`: higher thresholds never make a bucket more automatic.
* `Plan.byPriority_filter`: issues are listed by priority before or after some are left out.
* `Plan.make_tightens`: **higher thresholds move issues towards people and nowhere else**.
-/

namespace Mend

variable {κ : Type} [Confidence κ]

/-- Higher thresholds never make a bucket more automatic. -/
theorem Thresholds.rank_bucket_le_of_le [LawfulConfidence κ] {th th' : Thresholds κ}
    (hsafe : th.safe ≤ th'.safe) (hrisky : th.risky ≤ th'.risky) (o : Option (Strategy κ)) :
    (th.bucket o).rank ≤ (th'.bucket o).rank := by
  cases o with
  | none => exact Nat.le_refl _
  | some s =>
    exact rank_bucket_le_of_reached rfl (LawfulConfidence.trans hsafe) (LawfulConfidence.trans hrisky)

theorem Bucket.eq_safe_of_le {b : Bucket} (h : b.rank ≤ safe.rank) : b = safe := by
  cases b with
  | safe => rfl
  | risky | manual => cases h

theorem Bucket.eq_manual_of_le {b : Bucket} (h : manual.rank ≤ b.rank) : b = manual := by
  cases b with
  | manual => rfl
  | safe | risky => exact absurd h (by decide)

namespace Plan

/-- The issues of a plan that are dealt with in a certain way. -/
def listed (p : Plan) : Bucket → List Issue
  | .safe => p.safe
  | .risky => p.risky
  | .manual => p.manual

/-- What a plan turns into when it takes more confidence to repair an issue: every issue is in one
bucket of each plan, and in the second one no closer to being repaired at once. -/
structure Tightens (p p' : Plan) (issues : List Issue) : Prop where
  bucket : ∀ i ∈ issues, ∃ b b' : Bucket, (∀ c, i ∈ p.listed c ↔ c = b) ∧
    (∀ c, i ∈ p'.listed c ↔ c = b') ∧ b.rank ≤ b'.rank
  /-- What is still safe keeps its order. -/
  safe : p'.safe.Sublist p.safe
  /-- What was left to people is so still, and in the same order. -/
  manual : p.manual.Sublist p'.manual

theorem mem_listed_make {r : Registry κ} {learned : Snapshot κ} {th : Thresholds κ}
    {issues : List Issue} {i : Issue} {b : Bucket} :
    i ∈ (make r learned th issues).listed b ↔
      i ∈ issues ∧ th.bucket (r.select learned i.rule) = b := by
  cases b with
  | safe => exact mem_make_safe_iff
  | risky => exact mem_make_risky_iff
  | manual => exact mem_make_manual_iff

theorem byPriority_filter (p : Issue → Bool) (issues : List Issue) :
    byPriority (issues.filter p) = (byPriority issues).filter p :=
  (ranks_priority.filter_mergeSort p issues).symm

/-- What is repaired at once under stricter buckets is listed as it was. -/
theorem safe_ofBuckets_sublist {bucket bucket' : Issue → Bucket}
    (h : ∀ i, bucket' i = .safe → bucket i = .safe) (issues : List Issue) :
    (ofBuckets bucket' issues).safe.Sublist (ofBuckets bucket issues).safe := by
  have hboth : issues.filter (bucket' · = .safe) =
      (issues.filter (bucket · = .safe)).filter (bucket' · = .safe) := by
    rw [List.filter_filter]
    refine List.filter_congr fun i _ => ?_
    rw [Bool.eq_iff_iff, Bool.and_eq_true, decide_eq_true_iff, decide_eq_true_iff]
    exact ⟨fun hi => ⟨hi, h i hi⟩, And.left⟩
  unfold ofBuckets
  dsimp only
  rw [hboth, byPriority_filter]
  exact List.filter_sublist

/-- **Higher thresholds move issues towards people and nowhere else.** -/
theorem make_tightens [LawfulConfidence κ] (r : Registry κ) (learned : Snapshot κ)
    {th th' : Thresholds κ} (hsafe : th.safe ≤ th'.safe) (hrisky : th.risky ≤ th'.risky)
    (issues : List Issue) :
    (make r learned th issues).Tightens (make r learned th' issues) issues := by
  have hrank : ∀ i : Issue, (th.bucket (r.select learned i.rule)).rank ≤
      (th'.bucket (r.select learned i.rule)).rank :=
    fun i => Thresholds.rank_bucket_le_of_le hsafe hrisky _
  constructor
  case bucket =>
    intro i hi
    refine ⟨_, _, fun c => ?_, fun c => ?_, hrank i⟩
    · rw [mem_listed_make, eq_comm, and_iff_right hi]
    · rw [mem_listed_make, eq_comm, and_iff_right hi]
  case safe =>
    exact safe_ofBuckets_sublist (fun i hi => Bucket.eq_safe_of_le (hi ▸ hrank i)) issues
  case manual =>
    refine List.monotone_filter_right issues fun i hi => ?_
    exact decide_eq_true (Bucket.eq_manual_of_le (of_decide_eq_true hi ▸ hrank i))

/-- Doubles, with a first threshold below the second one. Of four issues, one stays safe, and a safe
one and a risky one are left to people. -/
theorem make_tightens_sample :
    let th : Thresholds Float := .standard
    let th' : Thresholds Float := ⟨0.86, 0.9⟩
    let r : Registry Float := .standard
    let issues : List Issue := ["quantum_decoherence_risk", "high_complexity",
      "missing_error_handling", "quantum_superposition_misuse"].map
        fun rule => { rule, description := "" }
    (th.safe ≤ th'.safe ∧ th.risky ≤ th'.risky) ∧
      issues.map (fun i => th.bucket (r.select {} i.rule)) = [.safe, .manual, .safe, .risky] ∧
      issues.map (fun i => th'.bucket (r.select {} i.rule)) = [.manual, .manual, .safe, .manual] ∧
      (make r {} th issues).Tightens (make r {} th' issues) issues := by
  intro th th' r issues
  have hsafe : th.safe ≤ th'.safe := by decide +kernel
  have hrisky : th.risky ≤ th'.risky := by decide +kernel
  exact ⟨⟨hsafe, hrisky⟩, by decide +kernel, by decide +kernel,
    make_tightens r {} hsafe hrisky issues⟩

end Plan

end Mend

import Mend.Proofs.Engine.Journal

/-!
# Buckets over time

The bucket of an issue is that of its rule: it follows from the experience at the start of the
session. A rule whose issues are not attempted is not learned about, whatever is learned about other
rules, so it stays in its bucket.

* `bucket_of_mem_made`: only issues of safe rules are attempted, and with the safety mode off those
  of risky rules.
* `bucket_step`: a rule that a move makes no attempt on keeps its bucket.
* `steps_of_shut`: a rule that is shut out of a history stays in its bucket, and no attempt is made
  on it.
* `buckets_absorb`: a manual rule stays manual, and a risky one stays risky while the safety mode
  is on.
-/

namespace Mend

/-- Every issue of a plan is in the bucket of its rule. -/
structure Plan.Follows (p : Plan) (bucket : String → Bucket) (issues : List Issue) : Prop where
  safe : ∀ i, i ∈ p.safe ↔ i ∈ issues ∧ bucket i.rule = .safe
  risky : ∀ i, i ∈ p.risky ↔ i ∈ issues ∧ bucket i.rule = .risky
  manual : ∀ i, i ∈ p.manual ↔ i ∈ issues ∧ bucket i.rule = .manual

namespace Engine

variable {κ : Type} [Confidence κ]

/-- The bucket of a rule in a session begun with this engine. -/
def bucket (e : Engine κ) (rule : String) : Bucket :=
  e.thresholds.bucket (e.registry.select e.experience.snapshot rule)

/-- A rule is shut out of a history: it is manual, or it is risky and the safety mode is on
throughout. -/
def Shut (e : Engine κ) (rule : String) (moves : List Move) : Prop :=
  e.bucket rule = .manual ∨
    (e.bucket rule = .risky ∧ e.safetyMode = true ∧ ∀ on, .setSafetyMode on ∈ moves → on = true)

variable {e : Engine κ} {m : Move} {moves : List Move} {rule : String}

/-! ## Plans -/

theorem follows_plan (e : Engine κ) (issues : List Issue) :
    (e.plan issues).Follows e.bucket issues where
  safe _ := Plan.mem_make_safe_iff
  risky _ := Plan.mem_make_risky_iff
  manual _ := Plan.mem_make_manual_iff

/-- The plan of a session is that for the issues detected first, whatever happens later. -/
theorem run_plan {σ : Type} (e : Engine κ) {d : Detector σ} {w w₁ : Surroundings σ} {file : String}
    {t : Text} {before : Detection}
    (first : w.countSession.observe d file t = (.ok before, w₁)) :
    (e.run d w file t).1.plan = e.plan before.issues := (e.run_of_first_ok first).1

/-! ## One move -/

/-- **Only issues of safe rules are attempted**, and with the safety mode off those of risky
rules. -/
theorem bucket_of_mem_made {a : Attempt κ} (h : a ∈ e.made m) :
    e.bucket a.issue.rule = .safe ∨
      (e.bucket a.issue.rule = .risky ∧ e.safetyMode = false) := by
  obtain ⟨hselect, hgate⟩ := selected_of_mem_made h
  unfold bucket
  rw [hselect, Thresholds.bucket_eq_safe_iff, Thresholds.bucket_eq_risky_iff]
  by_cases hsafe : e.thresholds.safe ≤ a.strategy.confidence ∧ a.strategy.complexity ≠ .complex
  · exact Or.inl ⟨a.strategy, rfl, hsafe⟩
  · rcases hgate with hgate | ⟨hoff, hrisky⟩
    · exact absurd hgate hsafe
    · exact Or.inr ⟨⟨a.strategy, rfl, hsafe, hrisky⟩, hoff⟩

/-- No attempt is made on a rule that is shut out. -/
theorem Shut.rule_ne (h : e.Shut rule moves) {a : Attempt κ} (ha : a ∈ e.made m) :
    a.issue.rule ≠ rule := by
  rintro rfl
  rcases bucket_of_mem_made ha with hsafe | ⟨hrisky, hoff⟩
  · rcases h with hmanual | ⟨hrisky, -⟩
    · exact absurd (hsafe.symm.trans hmanual) (by decide)
    · exact absurd (hsafe.symm.trans hrisky) (by decide)
  · rcases h with hmanual | ⟨-, hon, -⟩
    · exact absurd (hrisky.symm.trans hmanual) (by decide)
    · exact absurd (hoff.symm.trans hon) (by decide)

/-- **A rule that a move makes no attempt on keeps its bucket.** The strategies for it may learn
from the issues of other rules, but what counts for this one is what was learned on it. -/
theorem bucket_step (h : ∀ a ∈ e.made m, a.issue.rule ≠ rule) :
    (e.step m).bucket rule = e.bucket rule := by
  have hsame : ∀ x ∈ e.registry.forRule rule,
      (e.step m).experience.snapshot.get? x.id rule = e.experience.snapshot.get? x.id rule := by
    intro x _
    have hget : (e.step m).experience.get? x.id rule = e.experience.get? x.id rule := by
      refine get?_step_of_forall_ne fun a ha hpair => ?_
      exact h a ha (Prod.mk.inj hpair).2
    rw [Experience.get?_snapshot, Experience.get?_snapshot, hget]
  rw [← step_registry e m] at hsame
  unfold bucket
  rw [select_congr hsame, step_registry, step_thresholds]

theorem Shut.bucket_step (h : e.Shut rule moves) : (e.step m).bucket rule = e.bucket rule :=
  Engine.bucket_step fun _ ha => h.rule_ne ha

theorem Shut.step (h : e.Shut rule (m :: moves)) : (e.step m).Shut rule moves := by
  have hbucket : (e.step m).bucket rule = e.bucket rule := h.bucket_step
  rcases h with hmanual | ⟨hrisky, hsafety, hmoves⟩
  · exact Or.inl (hbucket.trans hmanual)
  · refine Or.inr ⟨hbucket.trans hrisky, ?_, fun on hon => hmoves on (List.mem_cons_of_mem m hon)⟩
    cases m with
    | session d w file t =>
      rw [step_session]
      exact hsafety
    | setSafetyMode on => exact hmoves on List.mem_cons_self
    | setLearning on => exact hsafety

/-! ## Histories -/

/-- **A rule that is shut out of a history stays in its bucket**, and no attempt is made on it. -/
theorem steps_of_shut (moves : List Move) {e : Engine κ} (h : e.Shut rule moves) :
    (e.steps moves).bucket rule = e.bucket rule ∧
      ∀ n ∈ e.journal moves, n.attempt.issue.rule ≠ rule := by
  constructor
  · exact steps_keep (P := fun e moves => e.Shut rule moves) (f := (·.bucket rule)) Shut.step
      Shut.bucket_step moves h
  · refine forall_mem_journal (P := fun e moves => e.Shut rule moves) Shut.step ?_ moves h
    intro e m moves h n hn
    exact h.rule_ne (attempt_mem_made hn)

/-- **Buckets are absorbing.** In every session of a history, the bucket of an issue follows from
its rule and the experience at the start. A rule that is manual stays manual, whatever the modes are
set to, and a risky rule stays risky as long as the safety mode is on; no attempt is made on either,
so neither can come back. -/
theorem buckets_absorb (e : Engine κ) (rule : String) (moves : List Move) :
    (e.steps moves).bucket rule =
        e.thresholds.bucket (e.registry.select (e.steps moves).experience.snapshot rule) ∧
      (∀ {σ : Type} (d : Detector σ) (w : Surroundings σ) (file : String) (t : Text)
          (before : Detection) (w₁ : Surroundings σ),
        w.countSession.observe d file t = (.ok before, w₁) →
        ((e.steps moves).run d w file t).1.plan.Follows (e.steps moves).bucket before.issues) ∧
      (e.bucket rule = .manual →
        (e.steps moves).bucket rule = .manual ∧
          ∀ n ∈ e.journal moves, n.attempt.issue.rule ≠ rule) ∧
      (e.bucket rule = .risky → e.safetyMode = true →
        (∀ on, .setSafetyMode on ∈ moves → on = true) →
        (e.steps moves).bucket rule = .risky ∧
          ∀ n ∈ e.journal moves, n.attempt.issue.rule ≠ rule) := by
  refine ⟨?_, fun d w file t before w₁ first => ?_, fun hmanual => ?_,
    fun hrisky hsafety hmoves => ?_⟩
  · unfold bucket
    rw [steps_registry, steps_thresholds]
  · rw [run_plan _ first]
    exact follows_plan _ before.issues
  · rw [← hmanual]
    exact steps_of_shut moves (.inl hmanual)
  · rw [← hrisky]
    exact steps_of_shut moves (.inr ⟨hrisky, hsafety, hmoves⟩)

theorem buckets_absorb_sample :
    let e := { sampleEngine with safetyMode := true }
    let moves : List Move :=
      [.session (sampleDetector (.error "gone")) sampleStart "a.ts" sampleText,
        .setLearning false, .setSafetyMode true]
    (e.steps moves).bucket "high_complexity" = .manual ∧
      (e.steps moves).bucket "hardcoded_private_keys" = .risky ∧
      ((e.steps moves).run (sampleDetector (.ok {})) sampleStart "a.ts" sampleText).1.plan.Follows
        (e.steps moves).bucket sampleDetection.issues := by
  intro e moves
  have hmanual : e.bucket "high_complexity" = .manual := by decide +kernel
  have hrisky : e.bucket "hardcoded_private_keys" = .risky := by decide +kernel
  have hon : ∀ on, .setSafetyMode on ∈ moves → on = true := by simp [moves]
  exact ⟨((buckets_absorb e "high_complexity" moves).2.2.1 hmanual).1,
    ((buckets_absorb e "hardcoded_private_keys" moves).2.2.2 hrisky rfl hon).1,
    (buckets_absorb e "" moves).2.1 _ _ _ _ sampleDetection sampleMiddle rfl⟩

end Engine

end Mend

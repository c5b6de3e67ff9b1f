import Mend.Proofs.Engine.Session

/-!
# Histories of an engine

An engine runs sessions, and between them its modes are set. Every session may have a detector of
its own, and any time may pass between two of them.

* `step_session`: what a session leaves behind is told by its attempts.
* `log`: all attempts of a history, each with the engine as it was when the session began.
* `attempts_pass_gate`: every attempt of every history has passed the gate of its session.
-/

namespace Mend

/-- What is done with an engine. -/
inductive Move : Type 1
  | session {σ : Type} (d : Detector σ) (w : Surroundings σ) (file : String) (t : Text)
  | setSafetyMode (on : Bool)
  | setLearning (on : Bool)

namespace Engine

variable {κ : Type} [Confidence κ]

/-- The engine after a move. -/
def step (e : Engine κ) : Move → Engine κ
  | .session d w file t => (e.run d w file t).2.1
  | .setSafetyMode on => { e with safetyMode := on }
  | .setLearning on => { e with learning := on }

/-- The attempts of a move: those of a session whose first detection succeeds. -/
def made (e : Engine κ) : Move → List (Attempt κ)
  | .session d w file t =>
    match w.countSession.observe d file t with
    | (.error _, _) => []
    | (.ok before, w₁) => e.sessionCourse w₁.now before t
  | .setSafetyMode _ => []
  | .setLearning _ => []

/-- The attempts of a history, each with the engine as it was when the session began. -/
def log (e : Engine κ) : List Move → List (Engine κ × Attempt κ)
  | [] => []
  | m :: moves => (e.made m).map (fun a => (e, a)) ++ (e.step m).log moves

/-! ## What a session leaves behind -/

section
variable {σ : Type} (e : Engine κ) {d : Detector σ} {w w₁ : Surroundings σ} {file : String}
  {t : Text} {before : Detection} {cause : String}

theorem made_of_first_error (first : w.countSession.observe d file t = (.error cause, w₁)) :
    e.made (.session d w file t) = [] := by
  simp only [made, first]

theorem made_of_first_ok (first : w.countSession.observe d file t = (.ok before, w₁)) :
    e.made (.session d w file t) = e.sessionCourse w₁.now before t := by
  simp only [made, first]

/-- **A session leaves behind what its attempts have taught**, whether it is completed or given
up. -/
theorem step_session (d : Detector σ) (w : Surroundings σ) (file : String) (t : Text) :
    e.step (.session d w file t) =
      let as := e.made (.session d w file t)
      { e with
        experience :=
          as.foldl (e.teach (w.countSession.observe d file t).2.now) e.experience
        history := as.foldl chronicle e.history } := by
  show (e.run d w file t).2.1 = _
  cases first : w.countSession.observe d file t with
  | mk outcome w₁ =>
    cases outcome with
    | error cause =>
      obtain ⟨s, -, -, -, -, hrun⟩ := e.run_of_first_error first
      rw [hrun, e.made_of_first_error first]
      rfl
    | ok before =>
      obtain ⟨-, -, -, hafter⟩ := e.run_of_first_ok first
      rw [hafter, e.attempts_eq w₁.now before t, e.made_of_first_ok first]
      rfl

end

@[simp] theorem step_registry (e : Engine κ) (m : Move) : (e.step m).registry = e.registry := by
  cases m with
  | session d w file t => rw [step_session]
  | setSafetyMode on => rfl
  | setLearning on => rfl

@[simp] theorem step_thresholds (e : Engine κ) (m : Move) :
    (e.step m).thresholds = e.thresholds := by
  cases m with
  | session d w file t => rw [step_session]
  | setSafetyMode on => rfl
  | setLearning on => rfl

/-! ## The gate -/

/-- What a strategy has to pass to be attempted in a session begun with this engine: it is safe and
not complex, or the safety mode is off and it may be risky. What counts is its confidence by the
experience from before the session. -/
def Passes (e : Engine κ) (x : Strategy κ) (rule : String) : Prop :=
  (e.thresholds.safe ≤ e.experience.snapshot.confidence x rule ∧ x.complexity ≠ .complex) ∨
    (e.safetyMode = false ∧ e.thresholds.risky ≤ e.experience.snapshot.confidence x rule)

/-- An attempt of a move is one with the strategy that was selected when the move began, and that
strategy reaches the thresholds. -/
theorem selected_of_mem_made {e : Engine κ} {m : Move} {a : Attempt κ} (h : a ∈ e.made m) :
    e.registry.select e.experience.snapshot a.issue.rule = some a.strategy ∧
      ((e.thresholds.safe ≤ a.strategy.confidence ∧ a.strategy.complexity ≠ .complex) ∨
        (e.safetyMode = false ∧ e.thresholds.risky ≤ a.strategy.confidence)) := by
  cases m with
  | setSafetyMode on => exact absurd h List.not_mem_nil
  | setLearning on => exact absurd h List.not_mem_nil
  | session d w file t =>
    cases first : w.countSession.observe d file t with
    | mk outcome w₁ =>
      cases outcome with
      | error cause =>
        rw [e.made_of_first_error first] at h
        exact absurd h List.not_mem_nil
      | ok before =>
        rw [e.made_of_first_ok first] at h
        have hcourse := (e.sessionCourse_spec w₁.now before t).1
        have hissue : a.issue ∈ e.attempted (e.plan before.issues) := by
          rw [← hcourse.map_issue]
          exact List.mem_map_of_mem h
        obtain ⟨s, hs, hgate⟩ := select_of_mem_attempted hissue
        have hchosen := hcourse.chosen_of_mem h
        obtain rfl := Option.some.inj (hs.symm.trans hchosen)
        exact ⟨hchosen, hgate⟩

/-- The attempts of a move have passed the gate. -/
theorem passes_of_mem_made [LawfulConfidence κ] {e : Engine κ} {m : Move} {a : Attempt κ}
    (h : a ∈ e.made m) :
    ∃ x ∈ e.registry.forRule a.issue.rule,
      a.strategy = e.experience.snapshot.adjust a.issue.rule x ∧ e.Passes x a.issue.rule := by
  obtain ⟨hselect, hgate⟩ := selected_of_mem_made h
  obtain ⟨x, hx, hadjust⟩ := select_eq_some hselect
  refine ⟨x, hx, hadjust, ?_⟩
  unfold Passes
  rw [hadjust] at hgate
  simpa only [Snapshot.le_adjust_confidence_iff, Snapshot.adjust_complexity] using hgate

/-- **Every attempt of every history has passed the gate of its session.** In a session begun with
the safety mode on, no complex strategy is ever attempted, whatever was learned before. -/
theorem attempts_pass_gate [LawfulConfidence κ] (e : Engine κ) (moves : List Move) {e₀ : Engine κ}
    {a : Attempt κ} (h : (e₀, a) ∈ e.log moves) :
    ∃ x ∈ e.registry.forRule a.issue.rule,
      a.strategy = e₀.experience.snapshot.adjust a.issue.rule x ∧
      ((e.thresholds.safe ≤ e₀.experience.snapshot.confidence x a.issue.rule ∧
          x.complexity ≠ .complex) ∨
        (e₀.safetyMode = false ∧
          e.thresholds.risky ≤ e₀.experience.snapshot.confidence x a.issue.rule)) ∧
      (e₀.safetyMode = true → a.strategy.complexity ≠ .complex) := by
  induction moves generalizing e with
  | nil => exact absurd h List.not_mem_nil
  | cons m moves ih =>
    rcases List.mem_append.mp h with hnow | hlater
    · obtain ⟨a', ha, hpair⟩ := List.mem_map.mp hnow
      obtain ⟨rfl, rfl⟩ := Prod.mk.inj hpair
      obtain ⟨x, hx, hadjust, hpass⟩ := passes_of_mem_made ha
      refine ⟨x, hx, hadjust, hpass, fun hsafe => ?_⟩
      rw [hadjust, Snapshot.adjust_complexity]
      rcases hpass with ⟨-, hsimple⟩ | ⟨hoff, -⟩
      · exact hsimple
      · exact absurd (hsafe.symm.trans hoff) (by decide)
    · simpa only [step_registry, step_thresholds] using ih (e.step m) hlater

theorem attempts_pass_gate_sample :
    ∃ a, (sampleEngine, a) ∈ sampleEngine.log
        [.session (sampleDetector (.ok {})) sampleStart "a.ts" sampleText, .setSafetyMode true] ∧
      a.issue = sampleIssue "hardcoded_private_keys" .critical ∧
      ∃ x ∈ sampleEngine.registry.forRule a.issue.rule,
        sampleEngine.thresholds.risky ≤
          sampleEngine.experience.snapshot.confidence x a.issue.rule := by
  have hcourse := (sampleEngine.sessionCourse_spec ⟨20⟩ sampleDetection sampleText).1
  have hissue : sampleIssue "hardcoded_private_keys" .critical ∈
      sampleEngine.attempted (sampleEngine.plan sampleDetection.issues) := by
    decide +kernel
  rw [← hcourse.map_issue] at hissue
  obtain ⟨a, ha, hrule⟩ := List.mem_map.mp hissue
  have hlog : (sampleEngine, a) ∈ sampleEngine.log
      [.session (sampleDetector (.ok {})) sampleStart "a.ts" sampleText, .setSafetyMode true] :=
    List.mem_append_left _ (List.mem_map_of_mem ha)
  obtain ⟨x, hx, -, hgate, -⟩ := attempts_pass_gate sampleEngine _ hlog
  refine ⟨a, hlog, hrule, x, hx, ?_⟩
  rcases hgate with ⟨hsafe, -⟩ | ⟨-, hrisky⟩
  · have hle : sampleEngine.thresholds.risky ≤ sampleEngine.thresholds.safe := by decide +kernel
    exact LawfulConfidence.trans hle hsafe
  · exact hrisky

end Engine

end Mend

import Mend.Catalog
import Mend.Proofs.Engine.Course

/-!
# What a session comes to

* `run_takes_course`: a session whose detections succeed takes the reference course of its plan,
  and its result is told by the attempts.
* `run_gives_up`: a session with a detection that fails gives the text back as it was. What the
  attempts before the failure have taught stays, as if the detection had succeeded.
-/

namespace Mend

namespace Engine

variable {κ σ σ' : Type} [Confidence κ]

/-! ## Sessions in terms of their detections -/

/-- The attempts of a session whose first detection answered `before` at some moment. -/
def sessionCourse (e : Engine κ) (now : Instant) (before : Detection) (t : Text) :
    List (Attempt κ) :=
  e.course e.experience.snapshot now (e.start t) (e.attempted (e.plan before.issues))

section
variable (e : Engine κ) {d : Detector σ} {w w₁ w₂ : Surroundings σ} {file : String} {t : Text}
  {before after : Detection} {cause : String}

/-- The attempts of a session are a course, and its progress is told by them. -/
theorem sessionCourse_spec (now : Instant) (before : Detection) (t : Text) :
    Course (e.registry.select e.experience.snapshot) t (e.attempted (e.plan before.issues))
        (e.sessionCourse now before t) (e.attempts now (e.plan before.issues) t).buffer ∧
      e.attempts now (e.plan before.issues) t =
        (e.sessionCourse now before t).foldl (e.advance now) (e.start t) := by
  have hselect : ∀ i ∈ e.attempted (e.plan before.issues),
      ∃ s, e.registry.select e.experience.snapshot i.rule = some s := by
    intro i hi
    obtain ⟨s, hs, -⟩ := select_of_mem_attempted hi
    exact ⟨s, hs⟩
  exact course_spec (p := e.start t) hselect

/-- The progress of a session, field by field. -/
theorem attempts_eq (now : Instant) (before : Detection) (t : Text) :
    e.attempts now (e.plan before.issues) t =
      let as := e.sessionCourse now before t
      { buffer := as.foldl (fun _ a => a.left) t
        applied := as.filterMap Attempt.success?
        total := as.length
        successful := (as.filterMap Attempt.success?).length
        failed := as.countP fun a => !a.succeeded
        experience := as.foldl (e.teach now) e.experience
        history := as.foldl chronicle e.history } := by
  rw [(e.sessionCourse_spec now before t).2, foldl_advance]
  simp [start]

/-- A session whose first detection fails. -/
theorem run_of_first_error (first : w.countSession.observe d file t = (.error cause, w₁)) :
    ∃ s : Session, s.total = 0 ∧ s.successful = 0 ∧ s.failed = 0 ∧ s.risky = 0 ∧
      e.run d w file t = (aborted s t w₁.now cause {}, e, w₁) := by
  unfold run
  simp only [first]
  exact ⟨_, rfl, rfl, rfl, rfl, rfl⟩

/-- A session whose second detection fails. -/
theorem run_of_second_error (first : w.countSession.observe d file t = (.ok before, w₁))
    (second : w₁.observe d file (e.attempts w₁.now (e.plan before.issues) t).buffer =
      (.error cause, w₂)) :
    ∃ s : Session, e.run d w file t =
      (aborted (e.counted s (e.attempts w₁.now (e.plan before.issues) t) (e.plan before.issues)) t
          w₂.now cause (e.plan before.issues),
        e.after (e.attempts w₁.now (e.plan before.issues) t), w₂) := by
  unfold run
  simp only [first, second]
  exact ⟨_, rfl⟩

/-- A session whose detections both succeed. -/
theorem run_of_second_ok (first : w.countSession.observe d file t = (.ok before, w₁))
    (second : w₁.observe d file (e.attempts w₁.now (e.plan before.issues) t).buffer =
      (.ok after, w₂)) :
    ∃ s : Session, e.run d w file t =
      (completed (e.counted s (e.attempts w₁.now (e.plan before.issues) t) (e.plan before.issues)) t
          w₂.now before after (e.attempts w₁.now (e.plan before.issues) t) (e.plan before.issues),
        e.after (e.attempts w₁.now (e.plan before.issues) t), w₂) := by
  unfold run
  simp only [first, second]
  exact ⟨_, rfl⟩

/-- What a session whose first detection succeeds comes to, whatever the second one answers. -/
theorem run_of_first_ok (first : w.countSession.observe d file t = (.ok before, w₁)) :
    let p := e.attempts w₁.now (e.plan before.issues) t
    (e.run d w file t).1.plan = e.plan before.issues ∧
      (e.run d w file t).1.session.total = p.total ∧
      (e.run d w file t).1.session.successful = p.successful ∧
      (e.run d w file t).2.1 = e.after p := by
  intro p
  cases second : w₁.observe d file p.buffer with
  | mk outcome w₂ =>
    cases outcome with
    | error cause =>
      obtain ⟨s, hrun⟩ := e.run_of_second_error first second
      rw [hrun]
      exact ⟨rfl, rfl, rfl, rfl⟩
    | ok after =>
      obtain ⟨s, hrun⟩ := e.run_of_second_ok first second
      rw [hrun]
      exact ⟨rfl, rfl, rfl, rfl⟩

end

/-! ## A sample engine -/

/-- An issue of a rule, with nothing else known about it. -/
def sampleIssue (rule : String) (severity : Severity) : Issue :=
  { rule, severity, category := .optimization, description := "", line := some 1, evidence := [],
    suggestion := "" }

/-- What is detected at first: an issue with a risky repair and one with a safe repair. -/
def sampleDetection : Detection :=
  { issues := [sampleIssue "hardcoded_private_keys" .critical, sampleIssue "unused_imports" .low] }

/-- An engine with the strategies that come with the program and the safety mode off. -/
def sampleEngine : Engine Float :=
  { registry := .standard, thresholds := .standard, safetyMode := false }

/-- Before the first session. -/
def sampleStart : Surroundings Nat := { now := ⟨0⟩, memory := 0 }

/-- After the first detection. -/
def sampleMiddle : Surroundings Nat := { now := ⟨20⟩, begun := 1, memory := 1 }

/-- A text with a secret and an import that is not used. -/
def sampleText : Text :=
  "import \x7b run \x7d from './run'\nkey = 'abcdefghijklmnopqrstuvwxyz'".toList

/-- A detector that finds the two issues and then answers as given. -/
def sampleDetector (second : Except String Detection) : Detector Nat :=
  .scripted [{ outcome := .ok sampleDetection, elapsed := 20 }, { outcome := second }]

/-! ## Completed sessions -/

/-- What a completed session comes to, given its attempts and the text in the end. -/
structure Completed (e : Engine κ) (t : Text) (before after : Detection) (as : List (Attempt κ))
    (u : Text) (r : SessionResult) : Prop where
  source : r.source = t
  fixed : r.fixed = u
  plan : r.plan = e.plan before.issues
  /-- The successful fixes, in the order of the attempts. -/
  applied : r.applied = as.filterMap Attempt.success?
  total : r.session.total = as.length
  successful : r.session.successful = r.applied.length
  /-- Every attempt counts as a success or as a failure. -/
  balance : r.session.total = r.session.successful + r.session.failed
  risky : r.session.risky = if e.safetyMode then 0 else (r.plan.risky.length : Int)
  /-- The second detection saw the text in the end. -/
  verification : r.verification = .compare before.issues after.issues

/-- **A session takes the reference course.** The safe issues of the plan are attempted in order,
and behind them the risky ones unless the safety mode is on, each with the strategy selected by the
experience from before the session. The second detection is of the text in the end. -/
theorem run_takes_course (e : Engine κ) (d : Detector σ) (w : Surroundings σ) (file : String)
    (t : Text) {w₁ : Surroundings σ} {before : Detection}
    (first : w.countSession.observe d file t = (.ok before, w₁)) :
    ∃ (as : List (Attempt κ)) (u : Text),
      Course (e.registry.select e.experience.snapshot) t
        ((e.plan before.issues).safe ++ if e.safetyMode then [] else (e.plan before.issues).risky)
        as u ∧
      ∀ (after : Detection) (w₂ : Surroundings σ), w₁.observe d file u = (.ok after, w₂) →
        Completed e t before after as u (e.run d w file t).1 ∧ (e.run d w file t).2.2 = w₂ := by
  refine ⟨_, _, (e.sessionCourse_spec w₁.now before t).1, fun after w₂ second => ?_⟩
  obtain ⟨s, hrun⟩ := e.run_of_second_ok first second
  have hprogress := e.attempts_eq w₁.now before t
  have hlength := Attempt.length_eq (e.sessionCourse w₁.now before t)
  rw [hrun]
  refine ⟨?_, rfl⟩
  constructor
  case source => rfl
  case fixed => rfl
  case plan => rfl
  case applied =>
    show (e.attempts w₁.now (e.plan before.issues) t).applied = _
    rw [hprogress]
  case total =>
    show ((e.attempts w₁.now (e.plan before.issues) t).total : Int) = _
    rw [hprogress]
  case successful =>
    show ((e.attempts w₁.now (e.plan before.issues) t).successful : Int) =
      (e.attempts w₁.now (e.plan before.issues) t).applied.length
    rw [hprogress]
  case balance =>
    show ((e.attempts w₁.now (e.plan before.issues) t).total : Int) =
      (e.attempts w₁.now (e.plan before.issues) t).successful +
        (e.attempts w₁.now (e.plan before.issues) t).failed
    rw [hprogress]
    exact_mod_cast hlength
  case risky => rfl
  case verification => rfl

theorem run_takes_course_sample :
    sampleStart.countSession.observe (sampleDetector (.ok {})) "a.ts" sampleText =
        (.ok sampleDetection, sampleMiddle) ∧
      ∃ as u, as.map (·.issue) =
          [sampleIssue "unused_imports" .low, sampleIssue "hardcoded_private_keys" .critical] ∧
        Completed sampleEngine sampleText sampleDetection {} as u
          (sampleEngine.run (sampleDetector (.ok {})) sampleStart "a.ts" sampleText).1 := by
  refine ⟨rfl, ?_⟩
  obtain ⟨as, u, hcourse, hcompleted⟩ := run_takes_course sampleEngine (sampleDetector (.ok {}))
    sampleStart "a.ts" sampleText rfl
  refine ⟨as, u, ?_, (hcompleted {} _ rfl).1⟩
  rw [hcourse.map_issue]
  decide +kernel

/-! ## Sessions that are given up -/

/-- What a session that is given up comes to: the text as it was, and a word on what happened. -/
structure GivenUp (t : Text) (r : SessionResult) : Prop where
  source : r.source = t
  fixed : r.fixed = t
  applied : r.applied = []
  verification : r.verification =
    { introduced := 0, resolved := 0, regression := false, improvement := false }
  recommendations : r.recommendations.length = 1
  error : r.session.error.isSome
  ended : r.session.ended.isSome

theorem givenUp_aborted (s : Session) (t : Text) (now : Instant) (cause : String) (plan : Plan) :
    GivenUp t (aborted s t now cause plan) :=
  ⟨rfl, rfl, rfl, rfl, rfl, rfl, rfl⟩

/-- Two sessions made the same attempts with the same success. -/
structure SameCounts (s s' : Session) : Prop where
  total : s.total = s'.total
  successful : s.successful = s'.successful
  failed : s.failed = s'.failed
  risky : s.risky = s'.risky

/-- **A session gives up when a detection fails.** After the first one nothing has happened to the
engine. After the second one the text is back as it was, but the counts, the plan and the engine
are those of a session with the same first detection whose second detection succeeds. -/
theorem run_gives_up (e : Engine κ) (d : Detector σ) (w : Surroundings σ) (file : String)
    (t : Text) :
    (∀ cause w₁, w.countSession.observe d file t = (.error cause, w₁) →
      let (r, e', _) := e.run d w file t
      GivenUp t r ∧ r.session.total = 0 ∧ r.session.successful = 0 ∧ r.session.failed = 0 ∧
        r.session.risky = 0 ∧ r.plan = {} ∧ e' = e) ∧
    (∀ before w₁ as u cause w₂, w.countSession.observe d file t = (.ok before, w₁) →
      Course (e.registry.select e.experience.snapshot) t (e.attempted (e.plan before.issues)) as u →
      w₁.observe d file u = (.error cause, w₂) →
      let (r, e', _) := e.run d w file t
      GivenUp t r ∧
        ∀ {σ' : Type} (d' : Detector σ') (w' w₁' : Surroundings σ') after w₂',
          w'.countSession.observe d' file t = (.ok before, w₁') → w₁'.now = w₁.now →
          w₁'.observe d' file u = (.ok after, w₂') →
          let (r', e'', _) := e.run d' w' file t
          SameCounts r.session r'.session ∧ r.plan = r'.plan ∧ e' = e'') := by
  constructor
  · intro cause w₁ first
    obtain ⟨s, htotal, hsuccessful, hfailed, hrisky, hrun⟩ := e.run_of_first_error first
    rw [hrun]
    exact ⟨givenUp_aborted s t w₁.now cause {}, htotal, hsuccessful, hfailed, hrisky, rfl, rfl⟩
  · intro before w₁ as u cause w₂ first hcourse second
    obtain ⟨-, rfl⟩ := hcourse.unique (e.sessionCourse_spec w₁.now before t).1
    obtain ⟨s, hrun⟩ := e.run_of_second_error first second
    rw [hrun]
    refine ⟨givenUp_aborted _ t w₂.now cause _, ?_⟩
    intro σ' d' w' w₁' after w₂' first' hnow second'
    rw [← hnow] at second'
    obtain ⟨s', hrun'⟩ := e.run_of_second_ok first' second'
    rw [hrun', hnow]
    exact ⟨⟨rfl, rfl, rfl, rfl⟩, rfl, rfl⟩

theorem run_gives_up_sample :
    GivenUp sampleText (sampleEngine.run (.scripted [{ outcome := .error "gone" }]) sampleStart
        "a.ts" sampleText).1 ∧
      SameCounts
        (sampleEngine.run (sampleDetector (.error "gone")) sampleStart "a.ts" sampleText).1.session
        (sampleEngine.run (sampleDetector (.ok {})) sampleStart "a.ts" sampleText).1.session := by
  have hcourse := (sampleEngine.sessionCourse_spec ⟨20⟩ sampleDetection sampleText).1
  have hfirst := (run_gives_up sampleEngine (.scripted [{ outcome := .error "gone" }]) sampleStart
    "a.ts" sampleText).1 "gone" _ rfl
  have hsecond := (run_gives_up sampleEngine (sampleDetector (.error "gone")) sampleStart "a.ts"
    sampleText).2 sampleDetection sampleMiddle _ _ "gone" _ rfl hcourse rfl
  exact ⟨hfirst.1, (hsecond.2 (sampleDetector (.ok {})) sampleStart sampleMiddle {} _ rfl rfl
    rfl).1⟩

end Engine

end Mend

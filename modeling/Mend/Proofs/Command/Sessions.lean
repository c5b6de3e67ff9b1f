import Mend.Command.Fix
import Mend.Proofs.Engine.Session
import Mend.Proofs.Project.Opening

/-!
# The sessions of a command

All sessions of a fix are run before anything is shown or written, on what the files hold when the
project has been opened.

* `sessions`: the results of these sessions, or why they were given up.
* `runFix_eq`: fixing is to show and to write those results.
* `run_patterns`: what a session comes to with the detector that comes with the program.
-/

namespace Mend

/-- The span of no milliseconds is none. -/
@[simp] theorem Instant.later_zero (i : Instant) : i.later 0 = i := by
  have hnone : (0 : Span).microseconds = 0 := rfl
  simp [later, hnone]

namespace Engine

/-- What a session comes to with the detector that comes with the program, which never fails. -/
theorem run_patterns {κ : Type} [Confidence κ] (e : Engine κ) (s : DetectorSettings)
    (w : Surroundings Unit) (file : String) (t : Text) :
    ∃ now r w', r.session.file = file ∧ r.source = t ∧
      r.plan = e.plan (Detection.ofText s t).issues ∧ r.fixed = (e.attempts now r.plan t).buffer ∧
      r.applied = (e.attempts now r.plan t).applied ∧
      e.run (.patterns s) w file t = (r, e.after (e.attempts now r.plan t), w') := by
  obtain ⟨w₁, first⟩ : ∃ w₁, w.countSession.observe (.patterns s) file t =
      (.ok (Detection.ofText s t), w₁) := ⟨_, rfl⟩
  unfold run
  simp only [first]
  exact ⟨w₁.now, _, _, rfl, rfl, rfl, rfl, rfl, rfl⟩

/-- A session with the detector that comes with the program takes no time. -/
theorem run_patterns_now {κ : Type} [Confidence κ] (e : Engine κ) (s : DetectorSettings)
    (w : Surroundings Unit) (file : String) (t : Text) :
    (e.run (.patterns s) w file t).2.2.now = w.now := by
  simp [run, Surroundings.observe, Surroundings.countSession, Detector.patterns]

end Engine

/-- Whether files are saved before they are written, according to the settings of a project. -/
def Project.backsUp (p : Project) : Bool := (p.settings.toOption.map (·.backup)).getD false

theorem Project.backsUp_of_open {p : Project} {o : Opened} (h : p.openWithSettings.1 = .ok o) :
    o.settings.backup = p.backsUp := by
  unfold openWithSettings at h
  unfold backsUp
  split at h
  · cases h
  next settings hsettings =>
  rw [hsettings]
  split at h
  · split at h
    · cases h
    · rw [← Except.ok.inj h]
      rfl
  · rw [← Except.ok.inj h]
    rfl

namespace Command

variable {options : FixOptions} {files : List String} {w : Workspace}

/-- The sessions of a fix before the first of them. -/
def sessionsStart (options : FixOptions) (o : Opened) (w : Workspace) : Sessions where
  engine := o.engine options.unsafely
  outside := { now := w.now, begun := w.begun, memory := () }

/-- The results of the sessions that a fix runs, or why they are given up. -/
def sessions (options : FixOptions) (files : List String) (w : Workspace) :
    Except ProjectError (List SessionResult) :=
  match w.project.openWithSettings with
  | (.error e, _) => .error e
  | (.ok o, p) =>
    (runSessions (.patterns o.settings.detector) p files (sessionsStart options o w)).1

theorem runSessions_now (s : DetectorSettings) (p : Project) (files : List String)
    (x : Sessions) : (runSessions (.patterns s) p files x).2.outside.now = x.outside.now := by
  induction files generalizing x with
  | nil => rfl
  | cons file files ih =>
    unfold runSessions
    dsimp only
    split
    · rfl
    next t _ =>
    have hnow := x.engine.run_patterns_now s x.outside (Path.ofText file).text.string t
    generalize x.engine.run (.patterns s) x.outside (Path.ofText file).text.string t = ran at hnow ⊢
    obtain ⟨r, engine, outside⟩ := ran
    dsimp only at hnow ⊢
    have hrest := ih { engine, outside }
    generalize runSessions (.patterns s) p files { engine, outside } = rest at hrest ⊢
    obtain ⟨e | rs, x'⟩ := rest
    · exact hrest.trans hnow
    · exact hrest.trans hnow

/-- **Fixing is to show and to write the results of its sessions**, in the project that was opened,
with what the sessions have taught saved in it. -/
theorem runFix_eq (options : FixOptions) (files : List String) (answers : List Bool)
    (w : Workspace) :
    ∃ t, w.project.openWithSettings.2.Brings (fun _ => False) t ∧
      ((runFix options files answers w).1, (runFix options files answers w).2.project) =
        match sessions options files w with
        | .error e => (.failedWith (.project e), { w.project.openWithSettings.2 with tree := t })
        | .ok results => conclude options w.project.backsUp w.moments answers results
            { w.project.openWithSettings.2 with tree := t } := by
  obtain ⟨t₀, hopen, -, hdatabase⟩ := w.project.openWithSettings_untouched
  have hbacksUp := fun o => w.project.backsUp_of_open (o := o)
  unfold runFix sessions
  generalize w.project.openWithSettings = opened at hopen hdatabase hbacksUp ⊢
  obtain ⟨e | o, p⟩ := opened
  · exact ⟨p.tree, .refl p _, rfl⟩
  obtain rfl : p = _ := hopen
  dsimp only
  have hstart : ({
      engine := o.engine options.unsafely
      outside := { now := w.now, begun := w.begun, memory := () } } : Sessions) =
        sessionsStart options o w := rfl
  rw [hstart, hbacksUp o rfl]
  have hnow := runSessions_now o.settings.detector { w.project with tree := t₀ } files
    (sessionsStart options o w)
  generalize runSessions _ _ files (sessionsStart options o w) = ran at hnow ⊢
  obtain ⟨results, s⟩ := ran
  have hnow : s.outside.now = w.now := hnow
  obtain ⟨t, hsave, hbrings⟩ : ∃ t, { w.project with tree := t₀ }.saveStore
      (learned o.store s.engine.experience) = { w.project with tree := t } ∧
        { w.project with tree := t₀ }.Brings (fun _ => False) t :=
    Project.saveStore_brings fun hsaved => hdatabase o rfl (by simpa [learned] using hsaved)
  dsimp only
  rw [hsave, hnow]
  refine ⟨t, hbrings, ?_⟩
  cases results <;> rfl

end Command

end Mend

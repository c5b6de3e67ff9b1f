import Mend.Command.Scan
import Mend.Proofs.Command.Sessions

/-!
# Scanning shows what fixing would do

* `runSessions_cons`: the first session of a fix follows the plan that scanning makes.
* `runScan_untouched`: scanning leaves the project untouched.
* `runScan_foretells_runFix`: **what a scan of a file shows is the plan of the session that a fix
  runs first on that file**.
-/

namespace Mend.Command

/-- The first session of a fix is for the first file, on what that file holds, and follows the plan
that scanning makes. -/
theorem runSessions_cons (options : FixOptions) (o : Opened) (p : Project) (w : Workspace)
    {file : String} {t : Text} (ht : p.readSource (.ofText file) = .ok t) :
    ∃ r, r.session.file = (Path.ofText file).text.string ∧
      r.plan = o.plan (o.detection t).issues ∧
      (runSessions (.patterns o.settings.detector) p [file] (sessionsStart options o w)).1 =
        .ok [r] ∧
      ∀ rest rs, (runSessions (.patterns o.settings.detector) p (file :: rest)
        (sessionsStart options o w)).1 = .ok rs → rs.head? = some r := by
  obtain ⟨now, r, w', hfile, -, hplan, -, -, hrun⟩ :=
    (sessionsStart options o w).engine.run_patterns o.settings.detector
      (sessionsStart options o w).outside (Path.ofText file).text.string t
  refine ⟨r, hfile, hplan, ?_, fun rest rs hrs => ?_⟩
  · unfold runSessions
    dsimp only
    rw [ht]
    dsimp only
    rw [hrun]
    rfl
  · unfold runSessions at hrs
    dsimp only at hrs
    rw [ht] at hrs
    dsimp only at hrs
    rw [hrun] at hrs
    dsimp only at hrs
    split at hrs
    · cases hrs
    · rw [← Except.ok.inj hrs]
      rfl

/-- A scan of a file shows the plan of the first session, or it fails as the sessions do. -/
theorem runScan_cases (options : FixOptions) (file : String) (w : Workspace) :
    (∃ e, sessions options [file] w = .error e ∧
        (runScan [file] w).1 = .failedWith (.project e)) ∨
      ∃ r m, sessions options [file] w = .ok [r] ∧
        (∀ rest rs, sessions options (file :: rest) w = .ok rs → rs.head? = some r) ∧
        (runScan [file] w).1 = .ofEvents (Report.plan r.session.file m r.plan) := by
  unfold sessions runScan
  generalize w.project.openWithSettings = opened
  obtain ⟨e | o, p⟩ := opened
  · exact .inl ⟨e, rfl, rfl⟩
  dsimp only
  cases ht : p.readSource (.ofText file) with
  | error e =>
    refine .inl ⟨e, ?_, ?_⟩
    · unfold runSessions
      dsimp only
      rw [ht]
    · unfold scanFiles
      dsimp only
      rw [ht]
  | ok t =>
    obtain ⟨r, hfile, hplan, hresults, hfirst⟩ := runSessions_cons options o p w ht
    refine .inr ⟨r, (o.detection t).metrics, hresults, hfirst, ?_⟩
    unfold scanFiles
    dsimp only
    rw [ht, hfile, hplan]
    dsimp only
    unfold scanFiles
    simp [Transcript.after, Transcript.ofEvents]

/-- Scanning leaves a project untouched, and everything else as it is. -/
theorem runScan_untouched (files : List String) (w : Workspace) :
    ∃ t, (runScan files w).2 = { w with project := { w.project with tree := t } } ∧
      w.project.Untouched t := by
  obtain ⟨t, hopen, huntouched, -⟩ := w.project.openWithSettings_untouched
  refine ⟨t, ?_, huntouched⟩
  unfold runScan
  rw [← hopen]
  split
  · next h => rw [h]
  · next h => rw [h]

/-- **What a scan of a file shows is the plan of the session that a fix runs first on that file**,
for the same project with whatever settings and experience, whichever options the fix is given and
whichever files follow; and if there is no such session, both fail for the same reason. A scan
changes neither what is saved of the experience nor what any file holds. -/
theorem runScan_foretells_runFix (options : FixOptions) (file : String) (w : Workspace) :
    ((∃ e, (∀ answers, (runFix options [file] answers w).1 = .failedWith (.project e)) ∧
        (runScan [file] w).1 = .failedWith (.project e)) ∨
      ∃ r m, (∀ answers, ∃ backup moments p,
          (runFix options [file] answers w).1 = (conclude options backup moments answers [r] p).1) ∧
        (∀ rest rs, sessions options (file :: rest) w = .ok rs → rs.head? = some r) ∧
        (runScan [file] w).1 = .ofEvents (Report.plan r.session.file m r.plan)) ∧
    ∃ p, (runScan [file] w).2 = { w with project := p } ∧ p.savedRows = w.project.savedRows ∧
      (∀ source bytes, w.project.read source = .ok bytes → p.read source = .ok bytes) ∧
      ∀ l, ¬ w.project.keep <+: l → p.tree.get? l = w.project.tree.get? l := by
  constructor
  · rcases runScan_cases options file w with ⟨e, hsessions, hscan⟩ | ⟨r, m, hfirst, hrest, hscan⟩
    · refine .inl ⟨e, fun answers => ?_, hscan⟩
      obtain ⟨t, -, hfix⟩ := runFix_eq options [file] answers w
      rw [hsessions] at hfix
      exact congrArg Prod.fst hfix
    · refine .inr ⟨r, m, fun answers => ?_, hrest, hscan⟩
      obtain ⟨t, -, hfix⟩ := runFix_eq options [file] answers w
      rw [hfirst] at hfix
      exact ⟨_, _, _, congrArg Prod.fst hfix⟩
  · obtain ⟨t, hscan, huntouched⟩ := runScan_untouched [file] w
    exact ⟨_, hscan, huntouched.rows, fun _ _ => huntouched.read, huntouched.outside⟩

end Mend.Command

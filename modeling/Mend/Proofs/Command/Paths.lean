import Mend.Command.Run
import Mend.Proofs.Command.Fix
import Mend.Proofs.Project.Deeds
import Mend.Proofs.Report

/-!
# Paths that commands show

* `run_named`: a session takes nothing from the path of its file but the name that it is shown
  under.
* `notices`: all that a command shows, with the places of the paths in it: what it reports about
  files, and what it says about those that it asks for, has written, has restored or can restore.
* `run_events`: reports escape every path, and messages put it into the markup as it is. Questions
  are messages, too.
* `run_escapes_iff`: **every path is shown as it is exactly if those in messages need no escape**.
* `undo_swallows`: a path of which the console shows only a part.
-/

namespace Mend

namespace Engine

/-- **A session takes nothing from the path of its file but the name that it is shown under**, with
the detector that comes with the program, and it is completed. -/
theorem run_named {κ : Type} [Confidence κ] (e : Engine κ) (s : DetectorSettings)
    (w : Surroundings Unit) (file : String) (t : Text) :
    e.run (.patterns s) w file t =
        ((e.run (.patterns s) w "" t).1.named file, (e.run (.patterns s) w "" t).2) ∧
      (e.run (.patterns s) w "" t).1.session.error = none :=
  ⟨rfl, rfl⟩

end Engine

namespace Command

/-! ## Scanning -/

/-- What a scan shows of files. -/
def scanNotices (o : Opened) (p : Project) : List String → List Notice
  | [] => []
  | file :: rest =>
    let path := Path.ofText file
    match p.readSource path with
    | .error _ => []
    | .ok t =>
      let d := o.detection t
      Report.planNotices path.text.string d.metrics (o.plan d.issues) ++ scanNotices o p rest

theorem scanFiles_events (o : Opened) (p : Project) (files : List String) :
    (scanFiles o p files).events = (scanNotices o p files).map (Notice.fill RawText.escape) := by
  induction files with
  | nil => rfl
  | cons file files ih =>
    unfold scanFiles scanNotices
    dsimp only
    cases p.readSource (Path.ofText file) with
    | error e => rfl
    | ok t =>
      dsimp only
      rw [List.map_append, ← ih, ← Report.plan_eq]
      rfl

/-! ## Sessions -/

/-- Runs a session for each file without its path: each result with the path that it is shown
under. -/
def unnamedSessions (d : Detector Unit) (p : Project) :
    List String → Sessions → Except ProjectError (List (String × SessionResult)) × Sessions
  | [], s => (.ok [], s)
  | file :: rest, s =>
    let path := Path.ofText file
    match p.readSource path with
    | .error e => (.error e, s)
    | .ok t =>
      let (r, engine, outside) := s.engine.run d s.outside "" t
      match unnamedSessions d p rest { engine, outside } with
      | (.error e, s) => (.error e, s)
      | (.ok rs, s) => (.ok ((path.text.string, r) :: rs), s)

/-- Results with the paths of their files. -/
def allNamed (rs : List (String × SessionResult)) : List SessionResult :=
  rs.map fun x => x.2.named x.1

/-- Sessions take nothing from the paths of their files but the names that they are shown under. -/
theorem runSessions_eq (s : DetectorSettings) (p : Project) (files : List String) (x : Sessions) :
    runSessions (.patterns s) p files x =
        ((unnamedSessions (.patterns s) p files x).1.map allNamed,
          (unnamedSessions (.patterns s) p files x).2) ∧
      ∀ rs, (unnamedSessions (.patterns s) p files x).1 = .ok rs →
        ∀ y ∈ rs, y.2.session.error = none := by
  induction files generalizing x with
  | nil =>
    refine ⟨rfl, fun rs hrs => ?_⟩
    rw [← Except.ok.inj hrs]
    simp
  | cons file files ih =>
    unfold runSessions unnamedSessions
    dsimp only
    cases p.readSource (Path.ofText file) with
    | error e => exact ⟨rfl, fun rs hrs => by cases hrs⟩
    | ok t =>
      dsimp only
      obtain ⟨hnamed, hcompleted⟩ :=
        x.engine.run_named s x.outside (Path.ofText file).text.string t
      rw [hnamed]
      generalize x.engine.run (.patterns s) x.outside "" t = ran at hcompleted ⊢
      obtain ⟨r, engine, outside⟩ := ran
      obtain ⟨hrest, hall⟩ := ih { engine, outside }
      dsimp only at hcompleted ⊢
      rw [hrest]
      generalize unnamedSessions (.patterns s) p files { engine, outside } = rest at hall ⊢
      obtain ⟨e | rs, x'⟩ := rest
      · exact ⟨rfl, fun rs hrs => by cases hrs⟩
      · refine ⟨rfl, fun rs' hrs => ?_⟩
        rw [← Except.ok.inj hrs, List.forall_mem_cons]
        exact ⟨hcompleted, hall rs rfl⟩

/-- What is shown of results, up to the first that cannot be drawn. -/
def resultNotices : List (String × SessionResult) → List Notice
  | [] => []
  | (file, r) :: rest =>
    match Report.sessionNotices file r with
    | .error _ => []
    | .ok ns => ns ++ resultNotices rest

theorem showResults_events {rs : List (String × SessionResult)}
    (h : ∀ x ∈ rs, x.2.session.error = none) :
    (showResults (allNamed rs)).events =
      (resultNotices rs).map (Notice.fill RawText.escape) := by
  induction rs with
  | nil => rfl
  | cons x rs ih =>
    obtain ⟨file, r⟩ := x
    rw [List.forall_mem_cons] at h
    have hnamed : allNamed ((file, r) :: rs) = r.named file :: allNamed rs := rfl
    unfold resultNotices
    rw [hnamed]
    unfold showResults
    rw [Report.session_eq file h.1]
    cases Report.sessionNotices file r with
    | error e => rfl
    | ok ns =>
      dsimp only [Except.map]
      rw [List.map_append, ← ih h.2]
      rfl

/-- What is shown of results, as JSON or as text. -/
def reportNotices (json : Bool) (rs : List (String × SessionResult)) : List Notice :=
  if json then
    [.other (.plain (Json.list ((allNamed rs).map Export.sessionResult)).indented)]
  else resultNotices rs

/-! ## Writing -/

/-- What is said about a write to a file. -/
def writtenNotices (file : RawText) (r : SessionResult) (w : WriteResult) : List Notice :=
  if w.success then
    [.line ("  " ++ Report.opening "green" ++ "✅ " ++ s!"Applied {r.applied.length} fixes to ") file
        (Report.closing "green"),
      .other (.line ("  " ++ Report.styledRaw "dim"
        ("Run `remedy undo " ++ w.session.display ++ "` to revert.")))]
  else if w.message = "File not found: " ++ file then
    [.line ("  " ++ Report.opening "red" ++ "❌ " ++ "File not found: ") file (Report.closing "red")]
  else
    [.other (.line ("  " ++ Report.styledRaw "red" ("❌ " ++
      "Source file has changed since the fix session. Re-run `remedy fix` first.")))]

/-- Why a changed result is not written, or what is said if it is. -/
theorem write_message {p q : Project} {backup : Bool} {r : SessionResult} {now : Instant}
    {w : WriteResult} (hchanged : r.changed = true) (h : p.write backup r now = (.ok w, q)) :
    w.success = true ∧ w.message = s!"Applied {r.applied.length} fixes to " ++ (p.fileOf r).text ∨
      w.success = false ∧ (w.message = "File not found: " ++ (p.fileOf r).text ∨
        w.message =
          "Source file has changed since the fix session. Re-run `remedy fix` first.") := by
  have hfile : p.path.join (.ofText r.session.file) = p.fileOf r := rfl
  have hrefused : ∀ message,
      ((.ok (Project.refused r.session.id (p.fileOf r) message), p) :
        Except ProjectError WriteResult × Project) = (.ok w, q) →
      w.success = false ∧ w.message = message := by
    intro message hw
    rw [← Except.ok.inj (Prod.mk.inj hw).1]
    exact ⟨rfl, rfl⟩
  unfold Project.write at h
  dsimp only at h
  rw [hfile, hchanged, Bool.not_true, if_neg Bool.false_ne_true] at h
  split at h
  · cases h
  · obtain ⟨hsuccess, hmessage⟩ := hrefused _ h
    exact .inr ⟨hsuccess, .inl hmessage⟩
  split at h
  · cases h
  split at h
  · obtain ⟨hsuccess, hmessage⟩ := hrefused _ h
    exact .inr ⟨hsuccess, .inr hmessage⟩
  unfold Project.writeOver at h
  dsimp only at h
  split at h
  · cases h
  split at h
  · cases h
  split at h
  · cases h
  · rw [← Except.ok.inj (Prod.mk.inj h).1]
    exact .inl ⟨rfl, rfl⟩

theorem written_eq {p q : Project} {backup : Bool} {r : SessionResult} {now : Instant}
    {w : WriteResult} (hchanged : r.changed = true) (h : p.write backup r now = (.ok w, q)) :
    written w = (writtenNotices (p.fileOf r).text r w).map (Notice.fill id) := by
  unfold written writtenNotices
  rcases write_message hchanged h with ⟨hsuccess, hmessage⟩ | ⟨hsuccess, hmessage | hmessage⟩
  · rw [if_pos hsuccess, if_pos hsuccess, hmessage]
    simp [Report.styledRaw_eq]
  · rw [hsuccess, hmessage]
    simp [Report.styledRaw_eq]
  · have hother : RawText.ofString
        "Source file has changed since the fix session. Re-run `remedy fix` first." ≠
          "File not found: " ++ (p.fileOf r).text := by
      intro heq
      have hhead := congrArg List.head? heq
      simp [RawText.ofString] at hhead
    rw [hsuccess, hmessage, if_neg hother]
    rfl

/-- The question whether to write a result, unless that is clear. -/
def askedNotices (options : FixOptions) (r : SessionResult) (answer : Bool) : List Notice :=
  if options.yes then [] else [.question "  Write fixes to " r.session.file "?" answer]

theorem fill_askedNotices (options : FixOptions) (r : SessionResult) (answer : Bool) :
    (askedNotices options r answer).map (Notice.fill id) =
      if options.yes then [] else [Event.question (question r.session.file) answer] := by
  unfold askedNotices question
  split
  · rfl
  · simp [Notice.fill, RawText.string_ofString, toString]

theorem mem_askedNotices {options : FixOptions} {r : SessionResult} {answer : Bool} {n : Notice}
    (h : n ∈ askedNotices options r answer) : options.yes = false ∧ n.isQuestion = true := by
  unfold askedNotices at h
  split at h
  · cases h
  next hyes =>
  rw [List.mem_singleton.mp h]
  exact ⟨by simpa using hyes, rfl⟩

/-- What is said while results are written, up to the first that fails. -/
def writeNotices (options : FixOptions) (backup : Bool) :
    (Nat → Instant) → List SessionResult → List Bool → Project → List Notice
  | _, [], _, _ => []
  | moments, r :: rest, answers, p =>
    if !r.changed then writeNotices options backup moments rest answers p
    else
      let answer := options.yes || answers.headD false
      let answers := if options.yes then answers else answers.tail
      if !answer then
        askedNotices options r answer ++ .other (.line ("  " ++ Report.styled "dim" "Skipped."))
          :: writeNotices options backup moments rest answers p
      else
        match p.write backup r (moments 0) with
        | (.error _, _) => askedNotices options r answer
        | (.ok w, q) =>
          askedNotices options r answer
            ++ (if options.json then [] else writtenNotices (p.fileOf r).text r w)
            ++ writeNotices options backup (fun n => moments (n + 1)) rest answers q

theorem writeResults_events (options : FixOptions) (backup : Bool) (moments : Nat → Instant)
    (rs : List SessionResult) (answers : List Bool) (p : Project) :
    (writeResults options backup moments rs answers p).1.events =
      (writeNotices options backup moments rs answers p).map (Notice.fill id) := by
  induction rs generalizing moments answers p with
  | nil => rfl
  | cons r rs ih =>
    unfold writeResults writeNotices
    cases hchanged : r.changed with
    | false => exact ih moments answers p
    | true =>
      simp only [Bool.not_true, Bool.false_eq_true, if_false]
      cases options.yes || answers.headD false with
      | false =>
        simp only [Bool.not_false, if_true]
        rw [List.map_append, List.map_cons, fill_askedNotices, ← ih]
        simp [Transcript.after]
      | true =>
        simp only [Bool.not_true, Bool.false_eq_true, if_false]
        rcases hwrite : p.write backup r (moments 0) with ⟨e | w, q⟩
        · rw [fill_askedNotices]
          simp [Transcript.after, Transcript.failedWith]
        · have hwritten : (if options.json = true then [] else written w) =
              (if options.json = true then [] else writtenNotices (p.fileOf r).text r w).map
                (Notice.fill id) := by
            split
            · rfl
            · exact written_eq hchanged hwrite
          dsimp only
          rw [List.map_append, List.map_append, fill_askedNotices, ← hwritten, ← ih]
          simp [Transcript.after]

/-- What is said while all results are written. -/
def writeAllNotices (options : FixOptions) (backup : Bool) (moments : Nat → Instant)
    (rs : List SessionResult) (answers : List Bool) (p : Project) : List Notice :=
  match p.prepare with
  | .error _ => []
  | .ok p => writeNotices options backup moments rs answers p

theorem writeAll_events (options : FixOptions) (backup : Bool) (moments : Nat → Instant)
    (rs : List SessionResult) (answers : List Bool) (p : Project) :
    (writeAll options backup moments rs answers p).1.events =
      (writeAllNotices options backup moments rs answers p).map (Notice.fill id) := by
  unfold writeAll writeAllNotices
  cases p.prepare with
  | error e => rfl
  | ok q => exact writeResults_events options backup moments rs answers q

/-! ## Undoing -/

/-- What is listed of a backup. -/
def savedNotice (s : Saved) : Notice :=
  .line ("  " ++ s.session.display ++ "  ") s.file.text ("  \\[" ++ s.stamp.display ++ "]")

/-- What is listed of all backups. -/
def undoableNotices (entries : List Saved) : List Notice :=
  if entries.isEmpty then [.other (.line "\n  No undoable sessions found.\n")]
  else
    [.other (.line ("\n  " ++ Report.styled "bold" "Undoable Sessions" ++ "\n"))]
      ++ entries.map savedNotice ++ [.other (.line "")]

/-- What is said about restoring a file. -/
def restoredNotice (w : WriteResult) : Notice :=
  match w.success, w.file with
  | true, some file =>
    .line ("  " ++ Report.styledRaw "green" ("✅ " ++ w.session.display) ++ "  " ++ "Reverted "
      ++ w.session.display ++ ": restored ") file.text []
  | _, some _ =>
    .other (.line ("  " ++ Report.styledRaw "red" ("❌ " ++ w.session.display)
      ++ "  " ++ "Backup file not found for " ++ w.session.display))
  | _, none =>
    .other (.line ("  " ++ Report.styledRaw "red" ("❌ " ++ w.session.display)
      ++ "  " ++ "No undo history for " ++ w.session.display))

/-- What is said about a backup that can be restored, or cannot. -/
theorem restored_restore {p q : Project} {s : Saved} {w : WriteResult}
    (h : p.restore s = (.ok w, q)) : restored w = (restoredNotice w).fill id := by
  unfold Project.restore at h
  split at h
  · cases h
  · rw [← Except.ok.inj (Prod.mk.inj h).1]
    simp [restored, restoredNotice]
  split at h
  · cases h
  · rw [← Except.ok.inj (Prod.mk.inj h).1]
    simp [restored, restoredNotice]

theorem restored_restoreAll {p q : Project} {entries : List Saved} {ws : List WriteResult}
    (h : p.restoreAll entries = (.ok ws, q)) :
    ws.map restored = (ws.map restoredNotice).map (Notice.fill id) := by
  induction entries generalizing p q ws with
  | nil =>
    obtain rfl := Except.ok.inj (Prod.mk.inj h).1
    rfl
  | cons s entries ih =>
    unfold Project.restoreAll at h
    rcases hrestore : p.restore s with ⟨e | w, p'⟩ <;> rw [hrestore] at h
    · cases h
    dsimp only at h
    rcases hrest : p'.restoreAll entries with ⟨e | ws', q'⟩ <;> rw [hrest] at h
    · cases h
    obtain rfl := Except.ok.inj (Prod.mk.inj h).1
    rw [List.map_cons, List.map_cons, List.map_cons, ih hrest, restored_restore hrestore]

theorem restored_undo {p q : Project} {session : String} {w : WriteResult}
    (h : p.undo session = (.ok w, q)) : restored w = (restoredNotice w).fill id := by
  unfold Project.undo at h
  split at h
  · cases h
  split at h
  · exact restored_restore h
  · rw [← Except.ok.inj (Prod.mk.inj h).1]
    simp [restored, restoredNotice, Json.display]
    rfl

theorem restored_undoLast {p q : Project} {ws : List WriteResult}
    (h : p.undoLast = (.ok ws, q)) :
    ws.map restored = (ws.map restoredNotice).map (Notice.fill id) := by
  unfold Project.undoLast at h
  split at h
  · cases h
  · obtain rfl := Except.ok.inj (Prod.mk.inj h).1
    rfl
  split at h
  · cases h
  · exact restored_restoreAll h

/-- What is said about undoing a batch. -/
def undoneNotices (results : List WriteResult) : List Notice :=
  if results.isEmpty then [.other (.line "\n  No recent fix session to undo.\n")]
  else
    [.other (.line ("\n  " ++ Report.styled "bold" "Undoing last fix session:" ++ "\n"))]
      ++ results.map restoredNotice ++ [.other (.line "")]

/-- What is said about an action in a project, if it does not fail. -/
def noticesOf {α : Type} (notices : α → List Notice) : Except ProjectError α → List Notice
  | .ok a => notices a
  | .error _ => []

/-- What undoing says. -/
def undoNotices (options : UndoOptions) (p : Project) : List Notice :=
  if options.list then noticesOf undoableNotices p.saved
  else if options.last then noticesOf undoneNotices p.undoLast.1
  else
    match options.session with
    | none | some "" => undoUsage.map .other
    | some session => noticesOf (fun w => [restoredNotice w]) (p.undo session).1

theorem undoable_eq (entries : List Saved) :
    undoable entries = (undoableNotices entries).map (Notice.fill id) := by
  have hsaved : ∀ s : Saved, savedLine s = (savedNotice s).fill id := by
    intro s
    simp [savedLine, savedNotice]
  unfold undoable undoableNotices
  split
  · rfl
  · simp [hsaved]

theorem undoIn_events (options : UndoOptions) (p : Project) :
    (undoIn options p).1.events = (undoNotices options p).map (Notice.fill id) := by
  unfold undoIn undoNotices
  split
  · cases p.saved with
    | error e => rfl
    | ok entries => exact undoable_eq entries
  split
  · rcases hundo : p.undoLast with ⟨e | ws, q⟩
    · rfl
    · have hrestored := restored_undoLast hundo
      simp only [List.map_map] at hrestored
      unfold transcriptOf noticesOf undone undoneNotices Transcript.ofEvents
      dsimp only
      split
      · rfl
      · simp [hrestored]
  cases options.session with
  | none => exact (Notice.map_fill_other id undoUsage).symm
  | some session =>
    by_cases hempty : session = ""
    · rw [hempty]
      exact (Notice.map_fill_other id undoUsage).symm
    · rcases hundo : p.undo session with ⟨e | w, q⟩
      · simp [hundo, noticesOf, transcriptOf, Transcript.failedWith]
      · simp [hundo, noticesOf, transcriptOf, Transcript.ofEvents, restored_undo hundo]

/-! ## Commands -/

/-- What is said while results are written, if they are to be written and could be shown. -/
def messageNotices (options : FixOptions) (backup : Bool) (moments : Nat → Instant)
    (answers : List Bool) (rs : List SessionResult) (p : Project) : List Notice :=
  if (report options.json rs).ending = .done ∧ options.write = true then
    writeAllNotices options backup moments rs answers p
  else []

theorem conclude_events (options : FixOptions) (backup : Bool) (moments : Nat → Instant)
    (answers : List Bool) {rs : List (String × SessionResult)}
    (h : ∀ x ∈ rs, x.2.session.error = none) (p : Project) :
    (conclude options backup moments answers (allNamed rs) p).1.events =
      (reportNotices options.json rs).map (Notice.fill RawText.escape) ++
        (messageNotices options backup moments answers (allNamed rs) p).map (Notice.fill id) := by
  have hreport : (report options.json (allNamed rs)).events =
      (reportNotices options.json rs).map (Notice.fill RawText.escape) := by
    unfold report reportNotices
    split
    · rfl
    · exact showResults_events h
  have hsilent : ∀ (t : Transcript) (q : Project) (e : Ending),
      (andThen t q fun q => ({ ending := e }, q)).1.events = t.events := by
    intro t q e
    unfold andThen
    split
    · simp [Transcript.after]
    · rfl
  have hwrite := writeAll_events options backup moments (allNamed rs) answers p
  unfold conclude messageNotices
  rcases report_ending options.json (allNamed rs) with hdone | ⟨e, hfailed⟩
  · rw [andThen_done hdone, hdone, ← hreport]
    cases options.write with
    | true => simp [Transcript.after, hsilent, hwrite]
    | false => simp [Transcript.after, hsilent]
  · rw [andThen_failed hfailed, hfailed]
    simp [hreport]

/-- All that a command shows, with the places of paths in it: what it reports about files, and what
it says about those that it asks for, has written, has restored or can restore. The other commands
name no files. -/
def notices (answers : List Bool) (w : Workspace) : Command → List Notice × List Notice
  | .scan files =>
    match w.project.openWithSettings with
    | (.error _, _) => ([], [])
    | (.ok o, p) => (scanNotices o p files, [])
  | .fix options files =>
    match w.project.openWithSettings with
    | (.error _, _) => ([], [])
    | (.ok o, p) =>
      let (results, s) :=
        unnamedSessions (.patterns o.settings.detector) p files (sessionsStart options o w)
      match results with
      | .error _ => ([], [])
      | .ok rs =>
        (reportNotices options.json rs,
          messageNotices options o.settings.backup { w with now := s.outside.now }.moments answers
            (allNamed rs) (p.saveStore (learned o.store s.engine.experience)))
  | .undo options =>
    match w.project.prepare with
    | .error _ => ([], [])
    | .ok p => ([], undoNotices options p)
  | c => ((c.run answers w).1.events.map .other, [])

/-- **Reports escape every path, and messages put it into the markup as it is.** -/
theorem run_events (answers : List Bool) (w : Workspace) (c : Command) :
    (c.run answers w).1.events =
      (c.notices answers w).1.map (Notice.fill RawText.escape) ++
        (c.notices answers w).2.map (Notice.fill id) := by
  cases c with
  | scan files =>
    show (runScan files w).1.events = _
    unfold runScan notices
    rcases w.project.openWithSettings with ⟨e | o, p⟩
    · rfl
    · simp [scanFiles_events]
  | fix options files =>
    show (runFix options files answers w).1.events = _
    unfold runFix notices
    rcases w.project.openWithSettings with ⟨e | o, p⟩
    · rfl
    have hstart : ({
        engine := o.engine options.unsafely
        outside := { now := w.now, begun := w.begun, memory := () } } : Sessions) =
          sessionsStart options o w := rfl
    obtain ⟨hnamed, hcompleted⟩ :=
      runSessions_eq o.settings.detector p files (sessionsStart options o w)
    dsimp only
    rw [hstart, hnamed]
    generalize unnamedSessions (.patterns o.settings.detector) p files
      (sessionsStart options o w) = ran at hcompleted ⊢
    obtain ⟨e | rs, s⟩ := ran
    · rfl
    · exact conclude_events options o.settings.backup { w with now := s.outside.now }.moments answers
        (hcompleted rs rfl) _
  | undo options =>
    show (runUndo options w).1.events = _
    unfold runUndo notices
    cases w.project.prepare with
    | error e => rfl
    | ok p => exact undoIn_events options p
  | strategies =>
    exact (Notice.map_fill_other _ _).symm.trans (List.append_nil _).symm
  | learning json reset =>
    exact (Notice.map_fill_other _ _).symm.trans (List.append_nil _).symm

/-- If the results are shown as JSON, writing says nothing about files but in questions. -/
theorem files_of_mem_writeNotices {options : FixOptions} (hjson : options.json = true)
    (backup : Bool) (moments : Nat → Instant) (rs : List SessionResult) (answers : List Bool)
    (p : Project) :
    ∀ n ∈ writeNotices options backup moments rs answers p,
      n.files = [] ∨ options.yes = false ∧ n.isQuestion = true := by
  have hasked : ∀ r answer, ∀ n ∈ askedNotices options r answer,
      n.files = [] ∨ options.yes = false ∧ n.isQuestion = true :=
    fun _ _ _ hn => .inr (mem_askedNotices hn)
  induction rs generalizing moments answers p with
  | nil => simp [writeNotices]
  | cons r rs ih =>
    unfold writeNotices
    dsimp only
    split
    · exact ih moments answers p
    split
    · rw [List.forall_mem_append, List.forall_mem_cons]
      exact ⟨hasked r _, .inl rfl, ih moments _ p⟩
    split
    · exact hasked r _
    · rw [List.append_nil, List.forall_mem_append]
      exact ⟨hasked r _, ih _ _ _⟩

/-- **Every path is shown as it is exactly if those in messages need no escape.** Those in reports
are always escaped. What scanning shows has no others, and neither has what fixing shows, but for
the questions that it asks, as long as nothing is written or the results are shown as JSON. -/
theorem run_escapes_iff (answers : List Bool) (w : Workspace) (c : Command) :
    (c.run answers w).1.events =
        (c.notices answers w).1.map (Notice.fill RawText.escape) ++
          (c.notices answers w).2.map (Notice.fill id) ∧
      ((c.run answers w).1.events =
          ((c.notices answers w).1 ++ (c.notices answers w).2).map (Notice.fill RawText.escape) ↔
        ∀ n ∈ (c.notices answers w).2, ∀ file ∈ n.files, file.escape = file) ∧
      (∀ files, c = .scan files → (c.notices answers w).2 = []) ∧
      ∀ options files, c = .fix options files → options.write = false ∨ options.json = true →
        ∀ n ∈ (c.notices answers w).2,
          n.files = [] ∨ options.yes = false ∧ n.isQuestion = true := by
  refine ⟨run_events answers w c, ?_, ?_, ?_⟩
  · rw [run_events, List.map_append, List.append_cancel_left_eq, List.map_inj_left]
    exact forall_congr' fun n => forall_congr' fun _ => n.fill_eq_iff
  · rintro files rfl
    unfold notices
    rcases w.project.openWithSettings with ⟨e | o, p⟩ <;> rfl
  · rintro options files rfl hquiet
    unfold notices
    rcases w.project.openWithSettings with ⟨e | o, p⟩
    · simp
    dsimp only
    rcases unnamedSessions (.patterns o.settings.detector) p files (sessionsStart options o w) with
      ⟨e | rs, s⟩
    · simp
    dsimp only
    unfold messageNotices writeAllNotices
    split
    · next h =>
      split
      · simp
      · exact files_of_mem_writeNotices (hquiet.resolve_left (by simp [h.2])) _ _ _ _ _
    · simp

/-- Of a path with brackets, the list of backups shows only what is outside of them. -/
theorem undo_swallows :
    let p : Project := { root := [], tree := ⟨[([], .folder), (["[id].ts"], .file [0x78])]⟩ }
    let q := (p.write true (Project.replaced "[id].ts" "first" ['x'] ['y']) ⟨0⟩).2
    let w : Workspace := { project := q, now := ⟨0⟩ }
    let c : Command := .undo { list := true }
    (c.run [] w).1.events =
        [.line "\n  [bold]Undoable Sessions[/bold]\n",
          .line "  first  /[id].ts  \\[1970-01-01T00-00-00]", .line ""] ∧
      RawText.escape "/[id].ts" = RawText.ofString "/\\[id].ts" ∧
      (c.run [] w).1.events ≠
        ((c.notices [] w).1 ++ (c.notices [] w).2).map (Notice.fill RawText.escape) := by
  decide +kernel

end Command

end Mend

import Mend.Command.Basic
import Mend.Command.Request
import Mend.Json.Printer
import Mend.Project.Backup
import Mend.Report.Export
import Mend.Report.Session

/-!
# Fixing

A session is run for each file, on what the file holds before any of them is written. Then the
results are shown, and written if that is wanted, each at its own moment.
-/

namespace Mend

namespace Opened

/-- The engine for the sessions of a command. -/
def engine (o : Opened) (unsafely : Bool) : Engine Float where
  registry := .standard
  thresholds := o.settings.thresholds
  safetyMode := o.settings.safetyMode && !unsafely
  experience := o.store.live

end Opened

namespace Command

/-! ## Sessions -/

/-- The sessions of a command so far: the engine and its surroundings. -/
structure Sessions where
  engine : Engine Float
  outside : Surroundings Unit

/-- Runs a session for each file, up to the first that cannot be read. -/
def runSessions (d : Detector Unit) (p : Project) :
    List String → Sessions → Except ProjectError (List SessionResult) × Sessions
  | [], s => (.ok [], s)
  | file :: rest, s =>
    let path := Path.ofText file
    match p.readSource path with
    | .error e => (.error e, s)
    | .ok t =>
      let (r, engine, outside) := s.engine.run d s.outside path.text.string t
      match runSessions d p rest { engine, outside } with
      | (.error e, s) => (.error e, s)
      | (.ok rs, s) => (.ok (r :: rs), s)

/-- A store after sessions. They cannot bring about a confidence that is not a number, so that all
records are saved. -/
def learned (s : Store) (x : Experience Float) : Store :=
  { live := x, saved := s.saved.map fun _ => x.records.map Row.ofRecord }

/-! ## Showing the results -/

/-- Shows results one after the other, up to the first that cannot be drawn. -/
def showResults : List SessionResult → Transcript
  | [] => {}
  | r :: rest =>
    match Report.session r true with
    | .error e => .failedWith (.report e)
    | .ok events => (showResults rest).after events

/-- Shows results, as JSON or as text. -/
def report (json : Bool) (results : List SessionResult) : Transcript :=
  if json then
    .ofEvents [.plain (Json.list (results.map Export.sessionResult)).indented]
  else showResults results

/-! ## Writing the results -/

/-- The question whether to write a result. -/
def question (file : String) : String := s!"  Write fixes to {file}?"

/-- Shows what became of writing a result. -/
def written (r : WriteResult) : List Event :=
  if r.success then
    [.line ("  " ++ Report.styledRaw "green" ("✅ " ++ r.message)),
      .line ("  " ++ Report.styledRaw "dim"
        ("Run `remedy undo " ++ r.session.display ++ "` to revert."))]
  else [.line ("  " ++ Report.styledRaw "red" ("❌ " ++ r.message))]

/-- Writes the results that have changed something, one after the other, each at the next of some
moments, up to the first that fails. Unless `yes` is set, each of them waits for an answer; where no
answer is given it is no. -/
def writeResults (options : FixOptions) (backup : Bool) :
    (Nat → Instant) → List SessionResult → List Bool → Project → Transcript × Project
  | _, [], _, p => ({}, p)
  | moments, r :: rest, answers, p =>
    if !r.changed then writeResults options backup moments rest answers p
    else
      let answer := options.yes || answers.headD false
      let asked :=
        if options.yes then [] else [Event.question (question r.session.file) answer]
      let answers := if options.yes then answers else answers.tail
      if !answer then
        let (t, p) := writeResults options backup moments rest answers p
        (t.after (asked ++ [.line ("  " ++ Report.styled "dim" "Skipped.")]), p)
      else
        match p.write backup r (moments 0) with
        | (.error e, p) => ((Transcript.failedWith (.project e)).after asked, p)
        | (.ok result, p) =>
          let (t, p) := writeResults options backup (fun n => moments (n + 1)) rest answers p
          (t.after (asked ++ if options.json then [] else written result), p)

/-- Writes results to their files. -/
def writeAll (options : FixOptions) (backup : Bool) (moments : Nat → Instant)
    (results : List SessionResult) (answers : List Bool) (p : Project) : Transcript × Project :=
  match p.prepare with
  | .error e => (.failedWith (.project e), p)
  | .ok p => writeResults options backup moments results answers p

/-! ## The command -/

/-- How the command ends if nothing fails. -/
def endingOf (options : FixOptions) (results : List SessionResult) : Ending :=
  if options.failOnRegression && results.any (·.verification.regression) then .regressed else .done

/-- Runs one thing after another: the second only if the first is done. -/
def andThen (first : Transcript) (p : Project) (second : Project → Transcript × Project) :
    Transcript × Project :=
  match first.ending with
  | .done =>
    let (t, p) := second p
    (t.after first.events, p)
  | _ => (first, p)

/-- Shows and writes results. -/
def conclude (options : FixOptions) (backup : Bool) (moments : Nat → Instant)
    (answers : List Bool) (results : List SessionResult) (p : Project) : Transcript × Project :=
  andThen (report options.json results) p fun p =>
    let (t, p) :=
      if options.write then writeAll options backup moments results answers p else ({}, p)
    andThen t p fun p => ({ ending := endingOf options results }, p)

/-- Runs a session for each file. `answers` are those to the questions that are asked. -/
def runFix (options : FixOptions) (files : List String) (answers : List Bool) (w : Workspace) :
    Transcript × Workspace :=
  match w.project.openWithSettings with
  | (.error e, p) => (.failedWith (.project e), { w with project := p })
  | (.ok o, p) =>
    let start : Sessions :=
      { engine := o.engine options.unsafely
        outside := { now := w.now, begun := w.begun, memory := () } }
    let (results, s) := runSessions (.patterns o.settings.detector) p files start
    let p := p.saveStore (learned o.store s.engine.experience)
    let w := { w with begun := s.outside.begun, now := s.outside.now }
    match results with
    | .error e => (.failedWith (.project e), { w with project := p })
    | .ok results =>
      let (t, p) := conclude options o.settings.backup w.moments answers results p
      (t, { w with project := p })

end Command

end Mend

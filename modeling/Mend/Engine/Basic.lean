import Mend.Catalog
import Mend.Engine.Detector
import Mend.Engine.Session
import Mend.Experience

/-!
# The engine

The engine runs sessions. A session detects the issues of a text, plans their repair by the
experience gained before it began, attempts one repair after the other on the text that the
attempts before have left, and detects again to see what came of it. What is learned during a
session counts from the next one on. If detection fails, the text stays as it was.
-/

namespace Mend

/-- What the engine keeps from session to session. -/
structure Engine (κ : Type) where
  registry : Registry κ
  thresholds : Thresholds κ
  /-- Whether only safe repairs are attempted. -/
  safetyMode : Bool := true
  /-- Whether outcomes are recorded. -/
  learning : Bool := true
  experience : Experience κ := {}
  /-- The fixes that each strategy returned, successful or not. -/
  history : List (String × List Fix) := []

/-- The attempts of a session so far. -/
structure Progress (κ : Type) where
  buffer : Text
  /-- The successful fixes, in order. -/
  applied : List Fix := []
  total : Nat := 0
  successful : Nat := 0
  failed : Nat := 0
  experience : Experience κ
  history : List (String × List Fix)

namespace Engine

variable {κ : Type}

/-- Adds a fix to those that a strategy returned. -/
def remember (strategy : String) (fix : Fix) :
    List (String × List Fix) → List (String × List Fix)
  | [] => [(strategy, [fix])]
  | (name, fixes) :: rest =>
    if name = strategy then (name, fixes ++ [fix]) :: rest
    else (name, fixes) :: remember strategy fix rest

/-- The experience after an attempt with a strategy. Learning starts from the confidence that the
strategy was registered with. -/
def learn [Confidence κ] (e : Engine κ) (x : Experience κ) (s : Strategy κ) (rule : String)
    (success : Bool) (now : Instant) : Experience κ :=
  let base := ((e.registry.get? s.id).map (·.confidence)).getD s.confidence
  if e.learning then x.add s.id rule success base now else x

/-- One more attempt, with the strategy that was selected when the session began. -/
def attempt [Confidence κ] (e : Engine κ) (learned : Snapshot κ) (now : Instant)
    (p : Progress κ) (i : Issue) : Progress κ :=
  let failed := { p with total := p.total + 1, failed := p.failed + 1 }
  match e.registry.select learned i.rule with
  | none => failed
  | some s =>
    match s.apply p.buffer i with
    | .error _ => { failed with experience := e.learn p.experience s i.rule false now }
    | .ok fix =>
      let history := remember s.id fix p.history
      let experience := e.learn p.experience s i.rule fix.success now
      if fix.success then
        { buffer := fix.fixed
          applied := p.applied ++ [fix]
          total := p.total + 1
          successful := p.successful + 1
          failed := p.failed
          experience
          history }
      else { failed with experience, history }

/-- Before the first attempt. -/
def start (e : Engine κ) (t : Text) : Progress κ :=
  { buffer := t, experience := e.experience, history := e.history }

/-- The issues that are attempted: the safe ones, and behind them the risky ones unless the safety
mode is on. -/
def attempted (e : Engine κ) (plan : Plan) : List Issue :=
  plan.safe ++ (if e.safetyMode then [] else plan.risky)

/-- All attempts of a session. -/
def attempts [Confidence κ] (e : Engine κ) (now : Instant) (plan : Plan) (t : Text) : Progress κ :=
  (e.attempted plan).foldl (e.attempt e.experience.snapshot now) (e.start t)

/-- The engine after the attempts of a session. -/
def after (e : Engine κ) (p : Progress κ) : Engine κ :=
  { e with experience := p.experience, history := p.history }

/-- The plan of a session for the issues of a file. -/
def plan [Confidence κ] (e : Engine κ) (issues : List Issue) : Plan :=
  .make e.registry e.experience.snapshot e.thresholds issues

/-- The words for a detection that failed. -/
def detectionFailure (file cause : String) : String :=
  "Issue detection failed for " ++ file ++ ": " ++ cause

/-- The result of a session that is given up. -/
def aborted (s : Session) (t : Text) (now : Instant) (cause : String) (plan : Plan) :
    SessionResult :=
  let reason := detectionFailure s.file cause
  let ended := { s with ended := some now, error := some reason }
  { session := { ended with summary := ended.abortedSummary now reason }
    source := t
    fixed := t
    recommendations := ["Auto-fix could not complete; review this file manually."]
    plan }

/-- The result of a session that is completed. -/
def completed (s : Session) (t : Text) (now : Instant) (before after : Detection)
    (p : Progress κ) (plan : Plan) : SessionResult :=
  let verification := Verification.compare before.issues after.issues
  let ended := { s with ended := some now }
  let outlook : Outlook :=
    { applied := p.applied, verification, remaining := after, plan, safetyMode := s.safetyMode }
  { session := { ended with summary := ended.completedSummary now verification }
    source := t
    fixed := p.buffer
    applied := p.applied
    verification
    recommendations := outlook.recommendations
    plan }

/-- The course of a session with the counts of its attempts. -/
def counted (e : Engine κ) (s : Session) (p : Progress κ) (plan : Plan) : Session :=
  { s with
    total := p.total
    successful := p.successful
    failed := p.failed
    risky := if e.safetyMode then 0 else plan.risky.length }

/-- Runs a session over a file: the result, the engine afterwards and the surroundings
afterwards. -/
def run {σ : Type} [Confidence κ] (e : Engine κ) (d : Detector σ) (w : Surroundings σ)
    (file : String) (t : Text) : SessionResult × Engine κ × Surroundings σ :=
  let w := w.countSession
  let s : Session :=
    { id := Session.idAt w.now w.begun, file, started := w.now, safetyMode := e.safetyMode }
  match w.observe d file t with
  | (.error cause, w) => (aborted s t w.now cause {}, e, w)
  | (.ok before, w) =>
    let plan := e.plan before.issues
    let p := e.attempts w.now plan t
    let s := e.counted s p plan
    match w.observe d file p.buffer with
    | (.error cause, w) => (aborted s t w.now cause plan, e.after p, w)
    | (.ok after, w) => (completed s t w.now before after p plan, e.after p, w)

end Engine

end Mend

import Mend.Proofs.Text.Markup
import Mend.Report.Plan
import Mend.Report.Session

/-!
# Paths in reports

Everything that is shown about a file has its path at a certain place of it, or does not name it.

* `Notice`: something that is shown, with the place of a path in it.
* `fill_eq_iff`: it does not matter whether a path is escaped exactly if there is nothing to escape.
* `plan_eq`, `diff_eq`, `session_eq`: **plans, diffs and sessions show the path of their file as it
  is**, and nothing else in them depends on it.
-/

namespace Mend

/-- Something that is shown, with the place of the path in it if it names a file. -/
inductive Notice
  /-- It names no file, or it is a plain text. -/
  | other (e : Event)
  | line (before file behind : RawText)
  | panel (markup before file behind color : String)
  /-- Questions are markup, too. -/
  | question (before file behind : String) (answer : Bool)

namespace Notice

/-- What is shown if paths are spelled in some way. -/
def fill (spell : RawText → RawText) : Notice → Event
  | other e => e
  | line before file behind => .line (before ++ spell file ++ behind)
  | panel markup before file behind color =>
    .panel markup (before ++ (spell (.ofString file)).string ++ behind) color
  | question before file behind answer =>
    .question (before ++ (spell (.ofString file)).string ++ behind) answer

/-- The paths that are named. -/
def files : Notice → List RawText
  | other _ => []
  | line _ file _ => [file]
  | panel _ _ file _ _ => [.ofString file]
  | question _ file _ _ => [.ofString file]

/-- Whether an answer is waited for. -/
def isQuestion : Notice → Bool
  | question .. => true
  | _ => false

@[simp] theorem fill_other (spell : RawText → RawText) (e : Event) : (other e).fill spell = e := rfl

@[simp] theorem fill_line (spell : RawText → RawText) (before file behind : RawText) :
    (line before file behind).fill spell = .line (before ++ spell file ++ behind) := rfl

theorem map_fill_other (spell : RawText → RawText) (es : List Event) :
    (es.map other).map (fill spell) = es := by
  rw [List.map_map]
  exact List.map_id es

theorem escape_ofString_eq_iff (file : String) :
    (RawText.ofString file).escape = RawText.ofString file ↔
      (RawText.ofString file).escape.string = file := by
  rw [RawText.escape_ofString, RawText.string_ofString]
  exact ⟨fun h => by rw [← RawText.string_ofString (Text.escapeString file), h,
    RawText.string_ofString], fun h => by rw [h]⟩

/-- **It does not matter whether a path is escaped exactly if there is nothing to escape.** -/
theorem fill_eq_iff (n : Notice) :
    n.fill id = n.fill RawText.escape ↔ ∀ file ∈ n.files, file.escape = file := by
  cases n with
  | other e => simp [fill, files]
  | line before file behind =>
    unfold fill files
    rw [Event.line.injEq, List.append_cancel_right_eq, List.append_cancel_left_eq,
      List.forall_mem_singleton, eq_comm]
    rfl
  | panel markup before file behind color =>
    unfold fill files
    rw [List.forall_mem_singleton, escape_ofString_eq_iff, Event.panel.injEq]
    simp [RawText.string_ofString, eq_comm]
  | question before file behind answer =>
    unfold fill files
    rw [List.forall_mem_singleton, escape_ofString_eq_iff, Event.question.injEq]
    simp [RawText.string_ofString, eq_comm]

end Notice

namespace SessionResult

/-- The result of a session as one of a file with another path. -/
def named (r : SessionResult) (file : String) : SessionResult :=
  { r with session := { r.session with file } }

end SessionResult

namespace Report

/-! ## Styles -/

/-- What begins markup in a style. -/
def opening (style : String) : RawText := "[" ++ style ++ "]"

/-- What ends markup in a style. -/
def closing (style : String) : RawText := "[/" ++ style ++ "]"

theorem ofString_styled (style markup : String) :
    RawText.ofString (styled style markup) =
      opening style ++ RawText.ofString markup ++ closing style := by
  unfold styled opening closing
  simp

theorem styledRaw_eq (style : String) (markup : RawText) :
    styledRaw style markup = opening style ++ markup ++ closing style := by
  unfold styledRaw opening closing
  simp

theorem ofString_esc (s : String) : RawText.ofString (esc s) = (RawText.ofString s).escape :=
  (RawText.escape_ofString s).symm

/-! ## Plans -/

/-- What is shown of the plan for a file. -/
def planNotices (file : String) (m : Metrics) (p : Plan) : List Notice :=
  [.panel (String.intercalate "\n" (planLines m p)) "[bold]" file "[/bold]"
    (scoreColor (Float.ofInt m.quality))]

/-- **A plan shows the path of its file as it is.** -/
theorem plan_eq (file : String) (m : Metrics) (p : Plan) :
    plan file m p = (planNotices file m p).map (Notice.fill RawText.escape) := by
  have hescaped : (RawText.ofString file).escape.string = esc file := by
    rw [RawText.escape_ofString, RawText.string_ofString]
    rfl
  unfold plan planNotices styled
  rw [List.map_singleton, Notice.fill, hescaped]
  simp [String.append_assoc]

/-! ## Diffs -/

/-- A path behind something that cannot belong to a tag is escaped as if it stood alone. -/
theorem line_escText (style before : String) (h : ∀ c ∈ before.toList, c ≠ '[' ∧ c ≠ '\\')
    (file : String) :
    Event.line ("  " ++ RawText.ofString (styled style (escText (before.toList ++ file.toList)))) =
      (Notice.line ("  " ++ opening style ++ before) file (closing style)).fill RawText.escape := by
  have hpath : RawText.ofString (escText (before.toList ++ file.toList)) =
      RawText.ofString before ++ (RawText.ofString file).escape := by
    unfold escText
    rw [Text.escapeMarkup_append h, RawText.escape_ofString]
    unfold RawText.ofString Text.escapeString
    simp
  rw [ofString_styled, hpath]
  simp

/-- What is shown of the changes of a file. -/
def diffNotices (file : String) (source fixed : Text) : List Notice :=
  match Diff.unified [] [] source fixed with
  | _ :: _ :: rows =>
    .line ("  " ++ opening "red" ++ "--- a/") file (closing "red")
      :: .line ("  " ++ opening "green" ++ "+++ b/") file (closing "green")
      :: rows.map fun row => .other (diffLine row)
  | _ => []

/-- The names of the texts are in the first two lines of a diff only. -/
theorem unified_eq (fromName toName source fixed : Text) :
    Diff.unified fromName toName source fixed =
      match Diff.unified [] [] source fixed with
      | _ :: _ :: rows => ("--- ".toList ++ fromName) :: ("+++ ".toList ++ toName) :: rows
      | _ => [] := by
  unfold Diff.unified
  dsimp only
  split <;> rfl

/-- **A diff shows the path of its file as it is.** -/
theorem diff_eq (file : String) (source fixed : Text) :
    diff file source fixed = (diffNotices file source fixed).map (Notice.fill RawText.escape) := by
  unfold diff diffNotices
  dsimp only
  rw [unified_eq]
  rcases Diff.unified [] [] source fixed with _ | ⟨x, _ | ⟨y, rows⟩⟩
  · rfl
  · rfl
  · dsimp only
    have hfrom := line_escText "red" "--- a/" (by simp) file
    have hto := line_escText "green" "+++ b/" (by simp) file
    rw [List.map_cons, List.map_cons, List.map_cons, List.map_cons, ← hfrom, ← hto, List.map_map]
    rfl

/-! ## Sessions -/

/-- What is shown of how a session of a file has ended, if it has been completed. -/
def endingNotices (file : String) (s : Session) : List Notice :=
  [.line ("\n  " ++ opening "bold") file (closing "bold" ++ "  " ++ styled "dim" s.id),
    .other (.line ("  " ++ esc s.summary))]

theorem ending_eq (file : String) {s : Session} (h : s.error = none) :
    ending { s with file } = (endingNotices file s).map (Notice.fill RawText.escape) := by
  unfold ending endingNotices
  rw [h]
  simp [ofString_styled, ofString_esc]

/-- What is shown of a session of a file. -/
def sessionNotices (file : String) (r : SessionResult) : Except BarError (List Notice) :=
  match r.applied.mapM appliedFix with
  | .error e => .error e
  | .ok fixes =>
    .ok (endingNotices file r.session ++ fixes.flatten.map .other
      ++ (if r.verification.regression
        then [.other (.line ("  " ++ styled "red" "Regression detected."))] else [])
      ++ (if r.changed then .other (.line "") :: diffNotices file r.source r.fixed else [])
      ++ (if r.recommendations.isEmpty then []
        else .other (.line "") :: r.recommendations.map fun s => .other (recommendation s))
      ++ [.other (.line "")])

/-- **A session that has been completed shows the path of its file as it is.** -/
theorem session_eq (file : String) {r : SessionResult} (h : r.session.error = none) :
    session (r.named file) true =
      (sessionNotices file r).map fun ns => ns.map (Notice.fill RawText.escape) := by
  have hfields : (r.named file).applied = r.applied ∧ (r.named file).verification = r.verification ∧
      (r.named file).changed = r.changed ∧ (r.named file).recommendations = r.recommendations :=
    ⟨rfl, rfl, rfl, rfl⟩
  have hending : ending (r.named file).session =
      (endingNotices file r.session).map (Notice.fill RawText.escape) := ending_eq file h
  have hdiff : diff (r.named file).session.file (r.named file).source (r.named file).fixed =
      (diffNotices file r.source r.fixed).map (Notice.fill RawText.escape) :=
    diff_eq file r.source r.fixed
  have hrecommendations : (r.recommendations.map fun s => Notice.other (recommendation s)).map
      (Notice.fill RawText.escape) = r.recommendations.map recommendation := by
    rw [List.map_map]
    rfl
  unfold session sessionNotices
  rw [hfields.1, hfields.2.1, hfields.2.2.1, hfields.2.2.2, hending, hdiff]
  cases r.applied.mapM appliedFix with
  | error e => rfl
  | ok fixes =>
    simp only [Except.map, List.map_append, Notice.map_fill_other, Bool.true_and]
    split <;> split <;> split <;> simp [hrecommendations]

end Report

end Mend

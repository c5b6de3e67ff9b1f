import Mend.Proofs.Fix.Meant
import Mend.Proofs.Idiom
import Mend.Proofs.Idiom.Functions

/-!
# The line of a report is the line that is meant

Some rules report what a fix then repairs at one line. Their issues name the line on which a hit
starts, and a hit may go on over several lines. The first line of the evidence is what the fix looks
for: it begins with the first word of the hit and stands on the line that is named, so that the fix
finds that line again, as long as the text is the same and the line qualifies.

* `Issue.SeenAt`: an issue is seen at a place of a text.
* `Issue.SeenAt.pointsAt`: what is seen at a place points at the line of the place.
* `Rule.exists_seenAt`, `Rule.exists_seenAt_highComplexity`: what rules report is seen at a place.
* `reports_point`: **rules that report a line report the line that a fix takes them to mean**.
-/

namespace Mend

open Text Reader

/-! ## Texts that do not begin with white space -/

/-- The text begins with a character that is no white space. -/
def Text.Begins (t : Text) : Prop := ∃ c ∈ t.head?, ¬ isBlank c

namespace Text.Begins

variable {t u : Text}

theorem not_blank (h : Begins t) : ¬ t.head?.any isBlank := by
  obtain ⟨c, hc, hblank⟩ := h
  rw [Option.mem_def] at hc
  simpa [hc] using hblank

theorem of_isPrefix (h : Begins t) (hu : u <+: t) (ne : u ≠ []) : Begins u := by
  obtain ⟨c, u, rfl⟩ := List.exists_cons_of_ne_nil ne
  obtain ⟨v, rfl⟩ := hu
  exact h

theorem trim_ne_nil (h : Begins t) : trim t ≠ [] := by
  obtain ⟨c, hc, hblank⟩ := h
  exact List.ne_nil_of_mem (mem_trim (List.mem_of_mem_head? hc) hblank)

/-- What begins with something else than white space is trimmed at its end only. -/
theorem trim_isPrefix (h : Begins t) : trim t <+: t := by
  rw [trim, trimLeft_eq h.not_blank]
  exact trimRight_isPrefix t

theorem firstLine (h : Begins t) : Begins (t.takeWhile (· != '\n')) := by
  refine h.of_isPrefix (List.takeWhile_prefix _) ?_
  obtain ⟨c, hc, hblank⟩ := h
  obtain ⟨t, rfl⟩ := List.head?_eq_some_iff.mp hc
  have hline : (c != '\n') = true := bne_iff_ne.mpr fun e => hblank (e ▸ (by decide))
  rw [List.takeWhile_cons_of_pos (p := (· != '\n')) hline]
  exact List.cons_ne_nil _ _

end Text.Begins

/-! ## Issues that are seen at a place -/

/-- An issue is seen where `rest` follows `a`: it names the line of that place and shows what stands
there. -/
structure Issue.SeenAt (i : Issue) (a rest : Text) : Prop where
  line : i.line = some ((a.count '\n' + 1 : Nat) : Int)
  evidence : i.evidence <+: rest
  begins : Begins i.evidence

/-- An issue points at a line of a text: it names a line that there is, and the line shows the first
line of the evidence, which is not blank. -/
structure Issue.PointsAt (i : Issue) (t : Text) (n : Nat) : Prop where
  line : i.line = some (n : Int)
  one_le : 1 ≤ n
  le_length : n ≤ (lines t).length
  marker_ne_nil : i.marker ≠ []
  marker_isInfix : i.marker <:+: (lines t).getD (n - 1) []

/-- The line that a trimmed piece is taken from shows it. -/
theorem Issue.SeenAt.of_trim {r : Rule} {a u rest : Text} (h : Begins u) (hu : u <+: rest) :
    (r.issue { line := some (a.count '\n' + 1), evidence := trim u }).SeenAt a rest where
  line := rfl
  evidence := h.trim_isPrefix.trans hu
  begins := h.of_isPrefix h.trim_isPrefix h.trim_ne_nil

/-- **What is seen at a place points at the line of the place.** -/
theorem Issue.SeenAt.pointsAt {i : Issue} {a rest : Text} (h : i.SeenAt a rest) :
    i.PointsAt (a ++ rest) (a.count '\n' + 1) := by
  obtain ⟨init, last, head, tail, ha, hrest, ht⟩ := exists_lines_append a rest
  have hlength := length_of_lines_eq ha
  constructor
  case line => exact h.line
  case one_le => exact Nat.le_add_left 1 _
  case le_length => simp [ht, ← hlength]
  case marker_ne_nil => exact h.begins.firstLine.trim_ne_nil
  case marker_isInfix =>
    have hline : (lines (a ++ rest)).getD (a.count '\n' + 1 - 1) [] = last ++ head := by
      simp [ht, ← hlength]
    rw [hline]
    exact (marker_isInfix_of_isPrefix h.evidence hrest).trans (List.suffix_append _ _).isInfix

/-- **A fix takes an issue to mean the line that it points at**, if that line qualifies. -/
theorem Issue.PointsAt.place? {i : Issue} {t : Text} {n : Nat} (h : i.PointsAt t n)
    {q : Nat → Bool} (hq : q (n - 1)) : place? (lines t) i q = some (n - 1) := by
  have hone := h.one_le
  refine place?_of_mem h.line (mem_candidates.mpr ⟨?_, ?_, hq⟩) (by omega)
  · exact Nat.sub_one_lt_of_le hone h.le_length
  · exact contains_iff.mpr h.marker_isInfix

/-! ## What rules report is seen at a place -/

namespace Idiom

variable {b : Option Char} {u v : Text}

/-- What is read after a word begins as the word does. -/
theorem begins_of_reads {c : Char} {w : Text} {rs : List Reader} [Within (seq rs)]
    (hc : ¬ isBlank c) (h : Reads (seq (exactly (c :: w) :: rs)) u v) : Begins u := by
  obtain ⟨_, rest, rfl, hword, -⟩ := reads_seq_cons.mp h
  obtain rfl := reads_exactly.mp hword
  exact ⟨c, rfl, hc⟩

theorem begins_rawMeasurement (h : Reads (rawMeasurement b) u v) : Begins u := by
  obtain ⟨w, rest, rfl, hword, -⟩ := reads_seq_cons.mp (reads_anywhere.mp h)
  simp only [reads_oneOf_cons, reads_exactly, reads_oneOf_nil, and_false, or_false] at hword
  obtain rfl | ⟨-, rfl | ⟨-, rfl⟩⟩ := hword
  · exact ⟨'m', rfl, by decide⟩
  · exact ⟨'o', rfl, by decide⟩
  · exact ⟨'c', rfl, by decide⟩

theorem begins_idleAsync (h : Reads (idleAsync b) u v) : Begins u :=
  begins_of_reads (by decide) (reads_atWord.mp h).2

theorem begins_unhandledAwait (h : Reads (unhandledAwait b) u v) : Begins u :=
  begins_of_reads (by decide) (reads_atWord.mp h).2

theorem begins_functionBody (h : Reads (functionBody b) u v) : Begins u :=
  begins_of_reads (by decide) (reads_anywhere.mp h)

end Idiom

namespace Rule

variable {r : Rule} {p : Pattern} {t : Text} {i : Issue}

/-- A rule that reports each hit reports what is seen at the place of the hit. -/
theorem exists_seenAt [∀ b, Within (p b)] (begins : ∀ {b u v}, Reads (p b) u v → Begins u)
    (hr : r.find t = .ok (eachHit p t)) (h : i ∈ r.reported t) :
    ∃ a rest, t = a ++ rest ∧ i.SeenAt a rest := by
  obtain ⟨a, u, v, rfl, hreads, rfl⟩ := exists_reportsAt hr h
  exact ⟨a, u ++ v, rfl, .of_trim (begins hreads) (List.prefix_append u v)⟩

/-- The function that is reported to be complex is seen where it starts. -/
theorem exists_seenAt_highComplexity {limit : Int} (h : i ∈ (highComplexity limit).reported t) :
    ∃ a rest, t = a ++ rest ∧ i.SeenAt a rest := by
  cases hfind : (hits Idiom.functionBody t).find? fun x => exceeds limit x.covered with
  | none => simp [reported, run, highComplexity, hfind, Except.map] at h
  | some x =>
    simp only [reported, run, highComplexity, hfind, Except.map, List.map_cons, List.map_nil,
      List.mem_singleton] at h
    obtain ⟨a, v, e, hline, hreads⟩ := exists_place_of_mem_hits (List.mem_of_find?_eq_some hfind)
    subst h
    rw [hline]
    exact ⟨a, x.covered ++ v, e, .of_trim (Idiom.begins_functionBody hreads).firstLine
      ((List.takeWhile_prefix _).trans (List.prefix_append _ _))⟩

/-- A rule looks through a text, and every issue that it reports points at a line, which is the one
that the issue means whenever it qualifies. -/
def Points (r : Rule) (t : Text) : Prop :=
  ∃ issues, r.run t = .ok issues ∧ ∀ i ∈ issues, ∃ n, i.PointsAt t n ∧
    ∀ q : Nat → Bool, q (n - 1) → place? (lines t) i q = some (n - 1)

theorem points_of_seenAt {found : List Finding} (hr : r.find t = .ok found)
    (h : ∀ i ∈ r.reported t, ∃ a rest, t = a ++ rest ∧ i.SeenAt a rest) : r.Points t := by
  refine ⟨r.reported t, by rw [reported, run, hr]; rfl, fun i hi => ?_⟩
  obtain ⟨a, rest, rfl, hseen⟩ := h i hi
  exact ⟨_, hseen.pointsAt, fun q hq => hseen.pointsAt.place? hq⟩

end Rule

/-- **Rules that report a line report the line that a fix takes them to mean**: the issues of
measurements, of functions and of awaited statements point at lines of the text. -/
theorem reports_point (t : Text) (limit : Int) :
    ∀ r ∈ [Rule.decoherenceRisk, Rule.asyncWithoutAwait, Rule.missingErrorHandling,
      Rule.highComplexity limit], r.Points t := by
  simp only [List.forall_mem_cons]
  refine ⟨?measurement, ?idle, ?unhandled, ?complex, by simp⟩
  case measurement =>
    exact Rule.points_of_seenAt rfl fun _ => Rule.exists_seenAt Idiom.begins_rawMeasurement rfl
  case idle =>
    exact Rule.points_of_seenAt rfl fun _ => Rule.exists_seenAt Idiom.begins_idleAsync rfl
  case unhandled =>
    exact Rule.points_of_seenAt rfl fun _ => Rule.exists_seenAt Idiom.begins_unhandledAwait rfl
  case complex =>
    exact Rule.points_of_seenAt rfl fun _ => Rule.exists_seenAt_highComplexity

/-- Every hit in the sample text goes on over more than one line. -/
theorem reports_point_sample :
    let t := ("async function ask()\n\x7b if (a) b() \x7d\nmeasureQuantum\n (q)\n ;\n" ++
      "f(await c(\n q));").toList
    let rules := [Rule.decoherenceRisk, Rule.asyncWithoutAwait, Rule.missingErrorHandling,
      Rule.highComplexity 0]
    rules.map (fun r => (r.reported t).map fun i => (i.line, i.marker)) =
        [[(some 3, "measureQuantum".toList)], [(some 1, "async function ask()".toList)],
          [(some 6, "await c(".toList)], [(some 1, "function ask()".toList)]] ∧
      (Rule.decoherenceRisk ∈ rules ∧ Rule.decoherenceRisk.Points t) ∧
      (Rule.highComplexity 0 ∈ rules ∧ (Rule.highComplexity 0).Points t) := by
  intro t rules
  have hfirst : Rule.decoherenceRisk ∈ rules := by simp [rules]
  have hlast : Rule.highComplexity 0 ∈ rules := by simp [rules]
  exact ⟨by decide +kernel, ⟨hfirst, reports_point t 0 _ hfirst⟩,
    ⟨hlast, reports_point t 0 _ hlast⟩⟩

end Mend

import Mend.Detection
import Mend.Proofs.Fix.Place
import Mend.Proofs.Text.FirstMatch

/-!
# What a fix takes on the line of an issue

A rule that reports each hit tells the line of the hit and shows it. A fix that looks for a pattern
on the line that is meant finds its line again, if the pattern occurs there, and takes what the
pattern reads first on it.

* `Rule.ReportsAt`, `Rule.exists_reportsAt`: where a rule reports a hit.
* `meant?`, `meant?_eq_some_iff`: what a fix takes.
* `exists_line_of_reportsAt`: for a reported hit it is taken on the line of the hit.
-/

namespace Mend

open Text Reader

variable {p : Pattern} {t a u v : Text} {i : Issue} {m : Match}

/-! ## Hits that are reported -/

/-- The rule reports an issue where the pattern reads `u` between `a` and `v`. -/
structure Rule.ReportsAt (r : Rule) (p : Pattern) (i : Issue) (a u v : Text) : Prop where
  reads : Reads (p a.getLast?) u v
  issue_eq : i = r.issue { line := some (a.count '\n' + 1), evidence := trim u }

theorem Rule.exists_reportsAt {r : Rule} [∀ b, Within (p b)] (hr : r.find t = .ok (eachHit p t))
    (h : i ∈ r.reported t) : ∃ a u v, t = a ++ (u ++ v) ∧ r.ReportsAt p i a u v := by
  rw [reported, run, hr] at h
  obtain ⟨f, hf, rfl⟩ := List.mem_map.mp h
  obtain ⟨x, hx, rfl⟩ := List.mem_map.mp hf
  obtain ⟨a, v, e, hline, hread⟩ := exists_place_of_mem_hits hx
  exact ⟨a, x.covered, v, e, hread, by rw [hline]⟩

namespace Fix

/-! ## What is taken on a line -/

/-- What a pattern reads first on the line that an issue means, with the text on either side. -/
def meant? (p : Pattern) (t : Text) (i : Issue) : Option Match :=
  let ls := lines t
  let rows := ls.toArray
  (place? ls i fun k => occurs p (rows.getD k [])).bind fun k =>
    (firstMatch? p (ls.getD k [])).map fun m =>
      ⟨unlines (ls.take k ++ [m.before]), m.covered, unlines (m.after :: ls.drop (k + 1))⟩

theorem meant?_eq_some_iff : meant? p t i = some m ↔ ∃ k m',
    place? (lines t) i (fun k => occurs p ((lines t).toArray.getD k [])) = some k ∧
    firstMatch? p ((lines t).getD k []) = some m' ∧
    m = ⟨unlines ((lines t).take k ++ [m'.before]), m'.covered,
      unlines (m'.after :: (lines t).drop (k + 1))⟩ := by
  simp only [meant?, Option.bind_eq_some_iff, Option.map_eq_some_iff]
  constructor
  · rintro ⟨k, hk, m', hm', rfl⟩
    exact ⟨k, m', hk, hm', rfl⟩
  · rintro ⟨k, m', hk, hm', rfl⟩
    exact ⟨k, hk, m', hm', rfl⟩

/-- Something is taken exactly if there is a line that is meant. -/
theorem exists_meant?_iff : (∃ m, meant? p t i = some m) ↔
    ∃ k, place? (lines t) i (fun k => occurs p ((lines t).toArray.getD k [])) = some k := by
  constructor
  · rintro ⟨m, hm⟩
    obtain ⟨k, -, hk, -⟩ := meant?_eq_some_iff.mp hm
    exact ⟨k, hk⟩
  · rintro ⟨k, hk⟩
    have found : occurs p ((lines t).getD k []) := by simpa using place?_qualifies hk
    obtain ⟨m', hm'⟩ := occurs_iff.mp found
    exact ⟨_, meant?_eq_some_iff.mpr ⟨k, m', hk, hm', rfl⟩⟩

/-- The text around what is taken stays, whatever is put in its place. -/
theorem text_of_meant (h : meant? p t i = some m) {k : Nat}
    (hk : place? (lines t) i (fun k => occurs p ((lines t).toArray.getD k [])) = some k) :
    t = m.before ++ (m.covered ++ m.after) ∧
    ∀ new, unlines (replaceLine (lines t) k [replaceFirst p new ((lines t).getD k [])]) =
      m.before ++ (new ++ m.after) := by
  obtain ⟨k', m', hk', hm', rfl⟩ := meant?_eq_some_iff.mp h
  obtain rfl := Option.some.inj (hk.symm.trans hk')
  constructor
  · have hline := firstMatch?_eq_some hm'
    rw [List.append_assoc] at hline
    rw [append_unlines, unlines_append_unlines, hline, take_append_getD_cons_drop (place?_lt hk),
      unlines_lines]
  · intro new
    rw [replaceFirst, hm', replaceLine, append_unlines, unlines_append_unlines]
    simp

/-! ## What is taken for a reported hit -/

variable {r : Rule} {q : Pattern}

/-- The line of a reported hit shows the first line of the evidence. -/
theorem marker_isInfix (h : r.ReportsAt q i a u v) (starts : ¬ u.head?.any isBlank) {head : Text}
    {tail : List Text} (hlines : lines (u ++ v) = head :: tail) : i.marker <:+: head := by
  refine marker_isInfix_of_isPrefix ?_ hlines
  rw [h.issue_eq]
  show trim u <+: u ++ v
  rw [trim, trimLeft_eq starts]
  exact (trimRight_isPrefix u).trans (List.prefix_append u v)

/-- **For a reported hit, a fix takes what it takes on the line of the hit**, if there is something
to take. -/
theorem exists_line_of_reportsAt (h : r.ReportsAt q i a u v) (starts : ¬ u.head?.any isBlank) :
    ∃ init last head tail, lines a = init ++ [last] ∧ lines (u ++ v) = head :: tail ∧
      lines (a ++ (u ++ v)) = init ++ (last ++ head) :: tail ∧
      ∀ {p : Pattern}, occurs p (last ++ head) →
        meant? p (a ++ (u ++ v)) i = (firstMatch? p (last ++ head)).map fun m =>
          ⟨unlines (init ++ [m.before]), m.covered, unlines (m.after :: tail)⟩ := by
  obtain ⟨init, last, head, tail, ha, hrest, ht⟩ := exists_lines_append a (u ++ v)
  have hlength := length_of_lines_eq ha
  refine ⟨init, last, head, tail, ha, hrest, ht, fun {p} found => ?_⟩
  have hline : (lines (a ++ (u ++ v))).getD (a.count '\n') [] = last ++ head := by
    rw [ht, ← hlength]
    simp
  have hmem : a.count '\n' ∈ candidates (lines (a ++ (u ++ v))) i
      (fun k => occurs p ((lines (a ++ (u ++ v))).toArray.getD k [])) := by
    refine mem_candidates.mpr ⟨by simp [ht, ← hlength], ?_, by simpa [← hline] using found⟩
    rw [hline, contains_iff]
    exact (marker_isInfix h starts hrest).trans (List.suffix_append _ _).isInfix
  have hnumber : i.line = some ((a.count '\n' + 1 : Nat) : Int) := by
    rw [h.issue_eq]
    rfl
  have hk := place?_of_mem hnumber hmem (by push_cast; omega)
  simp only [meant?, hk, Option.bind_some, hline]
  rw [ht, ← hlength]
  simp

end Fix

end Mend

import Mathlib.Data.List.GetD
import Mend.Fix.Place
import Mend.Proofs.Text.Lines
import Mend.Proofs.Text.Scanning

/-!
# The line an issue means, and changes at one line

* `mem_candidates`, `place?_mem`: the line that an issue means is one of the text that qualifies and
  shows the evidence; `place?_of_mem`: it is the one with the number if that one is.
* `unlines_replaceLine_ne`, `unlines_insertAbove_ne`: to put other lines in the place of one, or
  more lines in front of one, is to change the text.
-/

namespace Mend

open Text

/-! ## The line that is meant -/

section Place

variable {ls : List Text} {i : Issue} {q : Nat → Bool} {k : Nat}

theorem mem_candidates :
    k ∈ candidates ls i q ↔ k < ls.length ∧ contains i.marker (ls.getD k []) ∧ q k := by
  simp only [candidates, List.mem_map, List.mem_filter, Bool.and_eq_true]
  constructor
  · rintro ⟨⟨line, k⟩, ⟨hmem, hmarker, hq⟩, rfl⟩
    obtain ⟨hk, hline⟩ := List.mem_zipIdx' hmem
    refine ⟨hk, ?_, hq⟩
    rwa [List.getD_eq_getElem _ _ hk, ← hline]
  · rintro ⟨hk, hmarker, hq⟩
    rw [List.getD_eq_getElem _ _ hk] at hmarker
    have hmem : (ls[k], k) ∈ ls.zipIdx :=
      List.mk_mem_zipIdx_iff_getElem?.mpr (List.getElem?_eq_getElem hk)
    exact ⟨(ls[k], k), ⟨hmem, hmarker, hq⟩, rfl⟩

theorem place?_mem (h : place? ls i q = some k) : k ∈ candidates ls i q := by
  rw [place?] at h
  split at h
  · simp at h
  · exact List.minOn?_mem h

theorem place?_lt (h : place? ls i q = some k) : k < ls.length :=
  (mem_candidates.mp (place?_mem h)).1

theorem place?_qualifies (h : place? ls i q = some k) : q k :=
  (mem_candidates.mp (place?_mem h)).2.2

/-- An issue that names a line means one if any qualifies and shows the evidence. -/
theorem isSome_place? (hline : i.line.isSome) :
    (place? ls i q).isSome ↔ candidates ls i q ≠ [] := by
  obtain ⟨n, hn⟩ := Option.isSome_iff_exists.mp hline
  rw [place?, hn]
  exact List.isSome_minOn?_iff

/-- A line that qualifies and shows the evidence is meant if it is the one with the number. -/
theorem place?_of_mem {n : Int} (hline : i.line = some n) (h : k ∈ candidates ls i q)
    (hk : (k : Int) = n - 1) : place? ls i q = some k := by
  have hnonempty := List.ne_nil_of_mem h
  have hmin := List.apply_minOn_le_of_mem (f := fun (k : Nat) => ((k : Int) - (n - 1)).natAbs) h
  rw [place?, hline]
  dsimp only
  rw [List.minOn?_eq_some_minOn hnonempty, Option.some.injEq]
  omega

/-- Evidence that a text begins with shows on the first line of the text. -/
theorem marker_isInfix_of_isPrefix {t head : Text} {tail : List Text} (h : i.evidence <+: t)
    (hlines : lines t = head :: tail) : i.marker <:+: head := by
  have hprefix : i.evidence.takeWhile (· != '\n') <+: unlines (head :: tail) := by
    rw [← hlines, unlines_lines]
    exact (List.takeWhile_prefix _).trans h
  have hn : '\n' ∉ i.evidence.takeWhile (· != '\n') := fun hmem => by
    simpa using List.mem_takeWhile_imp hmem
  exact (trim_isInfix _).trans (prefix_line_of_prefix_unlines hn hprefix).isInfix

end Place

/-! ## Changes at a line -/

section Change

variable {ls block : List Text} {k : Nat} {line : Text} {t : Text}

theorem mem_of_mem_splice {j : Nat} (h : line ∈ ls.take k ++ block ++ ls.drop j) :
    line ∈ ls ∨ line ∈ block := by
  rw [List.mem_append, List.mem_append] at h
  obtain (h | h) | h := h
  · exact .inl (List.mem_of_mem_take h)
  · exact .inr h
  · exact .inl (List.mem_of_mem_drop h)

theorem take_append_getD_cons_drop (hk : k < ls.length) :
    ls.take k ++ ls.getD k [] :: ls.drop (k + 1) = ls := by
  rw [List.getD_eq_getElem _ _ hk, List.getElem_cons_drop, List.take_append_drop]

theorem replaceLine_ne (hk : k < ls.length) (ne : block ≠ [ls.getD k []]) :
    replaceLine ls k block ≠ ls := by
  intro e
  have hsplit : ls.take k ++ ([ls.getD k []] ++ ls.drop (k + 1)) = ls :=
    take_append_getD_cons_drop hk
  rw [replaceLine, List.append_assoc] at e
  exact ne (List.append_cancel_right (List.append_cancel_left (e.trans hsplit.symm)))

theorem insertAbove_ne (nonempty : block ≠ []) : insertAbove ls k block ≠ ls := by
  intro e
  have hlen := congrArg List.length e
  have hblock := List.length_pos_iff.mpr nonempty
  simp only [insertAbove, List.length_append, List.length_take, List.length_drop] at hlen
  omega

theorem unlines_splice_ne {j : Nat} (nonempty : block ≠ []) (h : ∀ line ∈ block, '\n' ∉ line)
    (ne : (lines t).take k ++ block ++ (lines t).drop j ≠ lines t) :
    unlines ((lines t).take k ++ block ++ (lines t).drop j) ≠ t := by
  refine unlines_ne (by simp [nonempty]) (fun line hline => ?_) ne
  obtain hline | hline := mem_of_mem_splice hline
  · exact newline_not_mem_of_mem_lines hline
  · exact h line hline

/-- Other lines in the place of a line make another text. -/
theorem unlines_replaceLine_ne (hk : k < (lines t).length) (nonempty : block ≠ [])
    (h : ∀ line ∈ block, '\n' ∉ line) (ne : block ≠ [(lines t).getD k []]) :
    unlines (replaceLine (lines t) k block) ≠ t :=
  unlines_splice_ne nonempty h (replaceLine_ne hk ne)

/-- More lines in front of a line make another text. -/
theorem unlines_insertAbove_ne (nonempty : block ≠ []) (h : ∀ line ∈ block, '\n' ∉ line) :
    unlines (insertAbove (lines t) k block) ≠ t :=
  unlines_splice_ne nonempty h (insertAbove_ne nonempty)

/-- A line whose first hit clashes with what replaces it makes another text. -/
theorem unlines_replaceFirst_ne {p : Pattern} [∀ b, Reader.Within (p b)] {new : Text}
    (hk : k < (lines t).length) (found : occurs p ((lines t).getD k [])) (h : '\n' ∉ new)
    (clash : ∀ {b u v}, Reader.Reads (p b) u v → Clash u new) :
    unlines (replaceLine (lines t) k [replaceFirst p new ((lines t).getD k [])]) ≠ t := by
  obtain ⟨m, hm⟩ := occurs_iff.mp found
  have hne := replaceFirst_ne hm (clash (firstMatch?_reads hm).2)
  refine unlines_replaceLine_ne hk (by simp) (fun line hline hc => ?_) (by simpa using hne)
  obtain rfl := List.mem_singleton.mp hline
  obtain hc | hc := mem_of_mem_replaceFirst hc
  · exact newline_not_mem_getD t k hc
  · exact h hc

end Change

end Mend

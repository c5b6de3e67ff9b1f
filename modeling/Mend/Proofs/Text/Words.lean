import Mend.Proofs.Text.FirstMatch
import Mend.Proofs.Text.Lines

/-!
# Whole words and whole identifiers

A whole word has no word character on either side, and a whole identifier no dollar sign either. So
an identifier that a text mentions is a word of it, and need not be the other way round.

* `occurs_word_iff`: the pattern of a word occurs where the whole word does.
* `occursWord_append_cons_iff`: a character between words keeps them apart.
* `mentions_iff`: a text mentions a name where it stands as a whole identifier.
* `occursWord_of_mentions`: a name that is mentioned occurs as a whole word.
-/

namespace Mend.Text

variable {name t : Text}

/-- The whole word `w` occurs in a text. -/
def OccursWord (w t : Text) : Prop :=
  ∃ a v, t = a ++ (w ++ v) ∧ ¬ a.getLast?.any isWord ∧ ¬ v.head?.any isWord

section Word

open Reader

variable {w a b : Text} {c : Char}

instance {o : Option Char} : Within (Pattern.word [w] o) :=
  inferInstanceAs (Within (Pattern.atWord (.oneOf [.seq [.exactly w, .wordEnd]]) o))

theorem reads_word {o : Option Char} {u v : Text} :
    Reads (Pattern.word [w] o) u v ↔ ¬ o.any isWord ∧ u = w ∧ ¬ v.head?.any isWord := by
  simp only [Pattern.word, List.map_cons, List.map_nil, reads_atWord, reads_oneOf_cons,
    reads_oneOf_nil, and_false, or_false, reads_seq_cons, reads_exactly, reads_wordEnd,
    reads_seq_nil]
  refine and_congr_right fun _ => ⟨?_, ?_⟩
  · rintro ⟨_, _, rfl, rfl, _, _, rfl, ⟨rfl, hv⟩, rfl⟩
    exact ⟨List.append_nil _, hv⟩
  · rintro ⟨rfl, hv⟩
    exact ⟨u, [], (List.append_nil u).symm, rfl, [], [], rfl, ⟨rfl, hv⟩, rfl⟩

theorem occurs_word_iff (nonempty : w ≠ []) : occurs (.word [w]) t ↔ OccursWord w t := by
  rw [occurs_iff_reads]
  constructor
  · rintro ⟨a, u, v, rfl, -, hread⟩
    obtain ⟨ha, rfl, hv⟩ := reads_word.mp hread
    exact ⟨a, v, rfl, ha, hv⟩
  · rintro ⟨a, v, rfl, ha, hv⟩
    exact ⟨a, w, v, rfl, nonempty, reads_word.mpr ⟨ha, rfl, hv⟩⟩

theorem not_occursWord_nil (nonempty : w ≠ []) : ¬ OccursWord w [] := by
  rintro ⟨a, v, e, -⟩
  exact nonempty (List.append_eq_nil_iff.mp (List.append_eq_nil_iff.mp e.symm).2).1

/-- A character between words keeps them apart. -/
theorem occursWord_append_cons_iff (hc : c ∉ w) (separates : ¬ isWord c) :
    OccursWord w (a ++ c :: b) ↔ OccursWord w a ∨ OccursWord w b := by
  have hlast : ∀ a x : Text, (a ++ c :: x).getLast?.any isWord = x.getLast?.any isWord := by
    intro a x
    rw [List.getLast?_append, getLast?_cons_eq_or]
    cases x.getLast? <;> simp [separates]
  have hhead : ∀ v, (v ++ c :: b).head?.any isWord = v.head?.any isWord := by
    intro v
    cases v <;> simp [separates]
  constructor
  · rintro ⟨x, v, e, hx, hv⟩
    obtain ⟨z, rfl, hz⟩ | ⟨z, rfl, hz⟩ := List.append_eq_append_iff.mp e
    · cases z with
      | nil =>
        have hw : w = [] := prefix_cons_of_not_mem hc ⟨v, hz.symm⟩
        rw [List.append_nil] at hx
        exact .inl ⟨a, [], by simp [hw], hx, by simp⟩
      | cons d z =>
        obtain ⟨rfl, rfl⟩ := List.cons.inj hz
        exact .inr ⟨z, v, rfl, by rwa [hlast] at hx, hv⟩
    · obtain ⟨v', rfl⟩ := (prefix_append_cons_iff hc).mp ⟨v, hz⟩
      rw [List.append_assoc] at hz
      obtain rfl := List.append_cancel_left hz
      exact .inl ⟨x, v', rfl, hx, by rwa [hhead] at hv⟩
  · rintro (⟨x, v, rfl, hx, hv⟩ | ⟨x, v, rfl, hx, hv⟩)
    · exact ⟨x, v ++ c :: b, by simp, hx, by rwa [hhead]⟩
    · exact ⟨a ++ c :: x, v, by simp, by rwa [hlast], hv⟩

end Word

theorem mentionsFrom_iff {b : Option Char} : mentionsFrom name (!b.any isNameChar) t ↔
    ∃ a v, t = a ++ (name ++ v) ∧ ¬ (a.getLast?.or b).any isNameChar ∧ endsName v := by
  induction t generalizing b with
  | nil =>
    rw [mentionsFrom, Bool.and_eq_true, Bool.not_eq_true', List.isEmpty_iff]
    constructor
    · rintro ⟨hb, rfl⟩
      exact ⟨[], [], rfl, by simpa using hb, rfl⟩
    · rintro ⟨a, v, e, hb, -⟩
      obtain ⟨rfl, hrest⟩ := List.append_eq_nil_iff.mp e.symm
      exact ⟨by simpa using hb, (List.append_eq_nil_iff.mp hrest).1⟩
  | cons c rest ih =>
    have hfresh : (!isNameChar c) = !(some c).any isNameChar := rfl
    rw [mentionsFrom, hfresh, Bool.or_eq_true, ih, Bool.and_eq_true, Bool.and_eq_true,
      Bool.not_eq_true', List.isPrefixOf_iff_prefix]
    constructor
    · rintro (⟨⟨hb, ⟨v, hv⟩⟩, hend⟩ | ⟨a, v, rfl, ha, hend⟩)
      · rw [← hv, List.drop_left] at hend
        exact ⟨[], v, hv.symm, by simpa using hb, hend⟩
      · exact ⟨c :: a, v, rfl, by rwa [getLast?_cons_or], hend⟩
    · rintro ⟨a, v, e, ha, hend⟩
      cases a with
      | nil =>
        rw [List.nil_append] at e
        refine .inl ⟨⟨by simpa using ha, ⟨v, e.symm⟩⟩, ?_⟩
        rwa [e, List.drop_left]
      | cons d a =>
        obtain ⟨rfl, rfl⟩ := List.cons.inj e
        rw [getLast?_cons_or] at ha
        exact .inr ⟨a, v, rfl, ha, hend⟩

/-- **A text mentions a name where it stands as a whole identifier.** -/
theorem mentions_iff : mentions name t ↔
    ∃ a v, t = a ++ (name ++ v) ∧ ¬ a.getLast?.any isNameChar ∧ endsName v := by
  rw [mentions]
  simpa using mentionsFrom_iff (t := t) (b := none)

theorem not_any_isWord {o : Option Char} (h : ¬ o.any isNameChar) : ¬ o.any isWord := by
  cases o with
  | none => exact h
  | some c =>
    intro hword
    rw [Option.any_some] at h hword
    exact h (by rw [isNameChar, hword, Bool.true_or])

/-- Every name that is mentioned occurs as a whole word. -/
theorem occursWord_of_mentions (h : mentions name t) : OccursWord name t := by
  obtain ⟨a, v, e, ha, hv⟩ := mentions_iff.mp h
  have hend : ¬ v.head?.any isNameChar := by
    cases v with
    | nil => simp
    | cons c v => simpa [endsName] using hv
  exact ⟨a, v, e, not_any_isWord ha, not_any_isWord hend⟩

end Mend.Text

import Mend.Proofs.Text.Characters
import Mend.Proofs.Text.Lines
import Mend.Proofs.Text.Words

/-!
# Identifiers between separators

A character that no identifier holds keeps the identifiers on either side of it apart. So whether a
text mentions a name can be asked line by line, piece by piece, and without the white space around a
piece.

* `mentions_append_cons_iff`: a separator keeps names apart.
* `IsName`: names that consist of the characters of identifiers; `mentions_isName_iff`: they mention
  nothing but themselves.
* `Outside name w`: a text of separators.
* `mentions_intercalate_iff`, `mentions_unlines_iff`, `mentions_iff_splitOn`, `mentions_trim_iff`: a
  name stands in one of the pieces between separators, in one of the lines, and not in the white
  space around a text.
-/

namespace Mend.Text

variable {name a b t : Text} {c : Char}

theorem endsName_drop_append (separates : ¬ isNameChar c) (h : name <+: a) :
    endsName ((a ++ c :: b).drop name.length) = endsName (a.drop name.length) := by
  obtain ⟨v, rfl⟩ := h
  rw [List.append_assoc, List.drop_left, List.drop_left]
  cases v with
  | nil => simpa [endsName] using separates
  | cons d v => rfl

theorem mentionsFrom_append_cons (hc : c ∉ name) (separates : ¬ isNameChar c) (fresh : Bool) :
    mentionsFrom name fresh (a ++ c :: b) =
      (mentionsFrom name fresh a || mentionsFrom name true b) := by
  have hfresh : (!isNameChar c) = true := by simpa using separates
  have hprefix : ∀ a, name.isPrefixOf (a ++ c :: b) = name.isPrefixOf a := fun a => by
    rw [Bool.eq_iff_iff, List.isPrefixOf_iff_prefix, List.isPrefixOf_iff_prefix,
      prefix_append_cons_iff hc]
  have hends : ∀ a, (name.isPrefixOf a && endsName ((a ++ c :: b).drop name.length)) =
      (name.isPrefixOf a && endsName (a.drop name.length)) := fun a => by
    by_cases h : name.isPrefixOf a
    · rw [endsName_drop_append separates (List.isPrefixOf_iff_prefix.mp h)]
    · simp [h]
  induction a generalizing fresh with
  | nil =>
    have hnil := hends []
    rw [List.nil_append] at hnil ⊢
    have hp := hprefix []
    rw [List.nil_append] at hp
    rw [mentionsFrom, mentionsFrom, hfresh, hp, Bool.and_assoc, hnil]
    cases name <;> simp [endsName]
  | cons d a ih =>
    have hcons := hends (d :: a)
    rw [List.cons_append] at hcons ⊢
    have hp := hprefix (d :: a)
    rw [List.cons_append] at hp
    rw [mentionsFrom, mentionsFrom, ih, hp, Bool.and_assoc, hcons, Bool.and_assoc, Bool.or_assoc]

/-- **A separator keeps names apart**: one that does not hold it stands on one side. -/
theorem mentions_append_cons_iff (hc : c ∉ name) (separates : ¬ isNameChar c) :
    mentions name (a ++ c :: b) ↔ mentions name a ∨ mentions name b := by
  rw [mentions, mentionsFrom_append_cons hc separates, Bool.or_eq_true]
  rfl

theorem mentions_nil_iff : mentions name [] ↔ name = [] := by
  simp [mentions, mentionsFrom]

/-- No character of `w` stands in `name`, or can stand in a name. -/
def Outside (name w : Text) : Prop := ∀ c ∈ w, c ∉ name ∧ ¬ isNameChar c

/-- The characters of a name are those of identifiers, and there is at least one. -/
def IsName (name : Text) : Prop := name ≠ [] ∧ ∀ c ∈ name, isNameChar c

theorem IsName.of_all {w : Text} (nonempty : w ≠ []) (h : w.all isNameChar) : IsName w :=
  ⟨nonempty, List.all_eq_true.mp h⟩

theorem IsName.outside {w : Text} (h : IsName name) (hw : ∀ c ∈ w, ¬ isNameChar c) :
    Outside name w :=
  fun c hc => ⟨fun hmem => hw c hc (h.2 c hmem), hw c hc⟩

/-- A name mentions nothing but itself. -/
theorem mentions_isName_iff {w : Text} (hw : IsName w) : mentions name w ↔ name = w := by
  rw [mentions_iff]
  constructor
  · rintro ⟨a, v, rfl, ha, hend⟩
    obtain rfl : a = [] := by
      by_contra hne
      rw [List.getLast?_eq_some_getLast hne] at ha
      exact ha (hw.2 _ (List.mem_append_left _ (List.getLast_mem hne)))
    obtain rfl : v = [] := by
      cases v with
      | nil => rfl
      | cons c v =>
        have hc : isNameChar c := hw.2 c (by simp)
        simp [endsName, hc] at hend
    simp
  · rintro rfl
    exact ⟨[], [], by simp, by simp, rfl⟩

theorem not_isNameChar_of_isBlank {c : Char} (h : isBlank c) : ¬ isNameChar c := by
  rw [isNameChar, Bool.or_eq_true, beq_iff_eq]
  rintro (hc | rfl)
  · exact not_isWord_of_isBlank h hc
  · exact absurd h (by decide)

theorem IsName.outside_singleton (h : IsName name) (hc : ¬ isNameChar c) : Outside name [c] :=
  h.outside (List.forall_mem_singleton.mpr hc)

theorem IsName.not_isBlank (h : IsName name) : ∀ c ∈ name, ¬ isBlank c :=
  fun c hc hblank => not_isNameChar_of_isBlank hblank (h.2 c hc)

theorem Outside.of_isBlank {w : Text} (hname : ∀ c ∈ name, ¬ isBlank c) (hw : ∀ c ∈ w, isBlank c) :
    Outside name w :=
  fun c hc => ⟨fun h => hname c h (hw c hc), not_isNameChar_of_isBlank (hw c hc)⟩

section Separators

variable (nonempty : name ≠ []) {w : Text}

include nonempty

theorem mentions_append_left_iff (h : Outside name w) :
    mentions name (w ++ t) ↔ mentions name t := by
  induction w with
  | nil => rfl
  | cons c w ih =>
    obtain ⟨hc, separates⟩ := h c List.mem_cons_self
    have hcut := mentions_append_cons_iff (a := []) (b := w ++ t) hc separates
    rw [List.nil_append, mentions_nil_iff, or_iff_right nonempty] at hcut
    exact hcut.trans (ih fun d hd => h d (List.mem_cons_of_mem c hd))

/-- **A text of separators keeps names apart.** -/
theorem mentions_append_append_iff (h : Outside name w) (separator : w ≠ []) :
    mentions name (a ++ (w ++ b)) ↔ mentions name a ∨ mentions name b := by
  obtain ⟨c, w, rfl⟩ := List.exists_cons_of_ne_nil separator
  obtain ⟨hc, separates⟩ := h c List.mem_cons_self
  rw [List.cons_append, mentions_append_cons_iff hc separates,
    mentions_append_left_iff nonempty fun d hd => h d (List.mem_cons_of_mem c hd)]

theorem mentions_append_right_iff (h : Outside name w) :
    mentions name (t ++ w) ↔ mentions name t := by
  by_cases hw : w = []
  · rw [hw, List.append_nil]
  · have hcut := mentions_append_append_iff (a := t) (b := []) nonempty h hw
    rwa [List.append_nil, mentions_nil_iff, or_iff_left nonempty] at hcut

/-- Pieces with separators between them mention what one of them mentions. -/
theorem mentions_intercalate_iff (h : Outside name w) (separator : w ≠ []) :
    ∀ {ss : List Text}, mentions name (List.intercalate w ss) ↔ ∃ s ∈ ss, mentions name s
  | [] => by simp [mentions_nil_iff, nonempty]
  | [s] => by simp
  | s :: s' :: ss => by
    rw [List.intercalate_cons_cons, List.append_assoc,
      mentions_append_append_iff nonempty h separator, mentions_intercalate_iff h separator]
    simp only [List.mem_cons, exists_eq_or_imp]

/-- **A text mentions what one of its lines mentions.** -/
theorem mentions_unlines_iff (h : Outside name ['\n']) {ls : List Text} :
    mentions name (unlines ls) ↔ ∃ line ∈ ls, mentions name line :=
  mentions_intercalate_iff nonempty h (List.cons_ne_nil _ _)

/-- A text mentions what one of the pieces between its separators mentions. -/
theorem mentions_iff_splitOn (h : Outside name [c]) :
    mentions name t ↔ ∃ s ∈ t.splitOn c, mentions name s := by
  rw [← mentions_intercalate_iff nonempty h (List.cons_ne_nil _ _), List.intercalate_splitOn]

/-- The white space around a text mentions nothing. -/
theorem mentions_trim_iff (h : ∀ c ∈ name, ¬ isBlank c) :
    mentions name (trim t) ↔ mentions name t := by
  have hleft : ∀ t, mentions name (trimLeft t) ↔ mentions name t := fun t => by
    have hblank : Outside name (t.takeWhile isBlank) :=
      .of_isBlank h fun _ => List.mem_takeWhile_imp
    rw [trimLeft, ← mentions_append_left_iff nonempty hblank, List.takeWhile_append_dropWhile]
  have hright : ∀ t, mentions name (trimRight t) ↔ mentions name t := fun t => by
    have hblank : Outside name (t.reverse.takeWhile isBlank).reverse :=
      .of_isBlank h fun c hc => List.mem_takeWhile_imp (List.mem_reverse.mp hc)
    rw [trimRight, ← mentions_append_right_iff nonempty hblank, ← List.reverse_append,
      List.takeWhile_append_dropWhile, List.reverse_reverse]
  rw [trim, hright, hleft]

end Separators

end Mend.Text

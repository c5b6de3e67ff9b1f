import Mathlib.Data.List.Infix
import Mend.Proofs.Text.Lines
import Mend.Proofs.Text.Scanning

/-!
# Words that no replacement brings in

Where something in a text is replaced, a word can come up that was not there before: in what is put
in, but also across one of its ends.

* `Apart`: no occurrence of a word begins in another text, ends in it or goes across it.
* `Apart.sides`: such a text keeps what is before it and what is behind it apart.
* `Keeps`: to put one text in the place of another brings in no occurrence of a word.
* `infix_of_replaceHits`, `infix_of_replaceFirst`, `infix_of_unlines`: no occurrence comes up in the
  text if none comes up at a hit, or on a line.
* `Apart.not_infix_replaceHits`: a word that is itself replaced is gone.
-/

namespace Mend.Text

variable {n w a b : Text}

/-! ## Texts that keep others apart -/

/-- No occurrence of `n` begins in `w`, ends in it or goes across it. -/
structure Apart (n w : Text) : Prop where
  begins : ∀ s ∈ w.tails, s ≠ [] → ¬ s <+: n ∧ ¬ n <+: s
  ends : ∀ s ∈ w.inits, s ≠ [] → ¬ s <:+ n
  across : ¬ w <:+: n

instance : Decidable (Apart n w) :=
  decidable_of_iff ((∀ s ∈ w.tails, s ≠ [] → ¬ s <+: n ∧ ¬ n <+: s) ∧
      (∀ s ∈ w.inits, s ≠ [] → ¬ s <:+ n) ∧ ¬ w <:+: n)
    ⟨fun h => ⟨h.1, h.2.1, h.2.2⟩, fun h => ⟨h.begins, h.ends, h.across⟩⟩

namespace Apart

theorem ne_nil (h : Apart n w) : w ≠ [] := by
  rintro rfl
  exact h.across List.nil_infix

/-- The empty word begins everywhere. -/
theorem word_ne_nil (h : Apart n w) : n ≠ [] := by
  rintro rfl
  exact (h.begins w (by simp) h.ne_nil).2 List.nil_prefix

/-- What does not begin in `w` is behind it. -/
theorem infix_right (h : Apart n w) (hn : n <:+: w ++ b) : n <:+: b := by
  have hbegins := h.begins
  clear h
  induction w with
  | nil => exact hn
  | cons c w ih =>
    obtain ⟨hpart, hwhole⟩ := hbegins (c :: w) (by simp) (List.cons_ne_nil c w)
    obtain hn | hn := List.infix_cons_iff.mp hn
    · obtain h | h := List.prefix_or_prefix_of_prefix hn (List.prefix_append (c :: w) b)
      · exact absurd h hwhole
      · exact absurd h hpart
    · refine ih hn fun s hs => hbegins s ?_
      rw [List.mem_tails] at hs ⊢
      exact hs.trans (List.suffix_cons c w)

/-- What goes over the end of `a` does not get into `w`. -/
theorem suffix_left {x y : Text} (h : Apart n w) (hn : n = x ++ y) (hy : y <+: w ++ b) :
    y = [] := by
  by_contra hne
  obtain hy | hy := List.prefix_or_prefix_of_prefix hy (List.prefix_append w b)
  · exact h.ends y ((List.mem_inits _ _).mpr hy) hne ⟨x, hn.symm⟩
  · exact h.across (hy.isInfix.trans ⟨x, [], by simp [hn]⟩)

/-- **What is before `w` and what is behind it are kept apart.** -/
theorem sides (h : Apart n w) (hn : n <:+: a ++ (w ++ b)) : n <:+: a ∨ n <:+: b := by
  obtain hn | hn | ⟨x, y, rfl, hx, hy⟩ := List.infix_append_iff.mp hn
  · exact .inl hn
  · exact .inr (h.infix_right hn)
  · obtain rfl := h.suffix_left rfl hy
    rw [List.append_nil]
    exact .inl hx.isInfix

/-- At the end of a text, nothing is behind `w`. -/
theorem infix_left (h : Apart n w) (hn : n <:+: a ++ w) : n <:+: a := by
  obtain hn | hn := h.sides (b := []) (by rwa [List.append_nil])
  · exact hn
  · exact absurd (List.infix_nil.mp hn) h.word_ne_nil

end Apart

/-- A word that begins with white space only if it is nothing else lies in the white space that a
text begins with, or behind it. -/
theorem infix_of_blanks_append {g : Text} (hg : ∀ c ∈ g, isBlank c)
    (hblank : n.head?.any isBlank → n.length = 1) (hn : n <:+: g ++ b) : n <:+: g ∨ n <:+: b := by
  obtain hn | hn | ⟨x, y, rfl, hx, hy⟩ := List.infix_append_iff.mp hn
  · exact .inl hn
  · exact .inr hn
  · cases x with
    | nil => exact .inr hy.isInfix
    | cons c x =>
      have hc : isBlank c := hg c (hx.subset List.mem_cons_self)
      have hlen : (c :: x ++ y).length = 1 := hblank (by simpa using hc)
      obtain rfl : y = [] := by
        rw [← List.length_eq_zero_iff]
        simp only [List.length_append, List.length_cons] at hlen
        omega
      rw [List.append_nil]
      exact .inl hx.isInfix

/-! ## Replacements that keep a word out -/

/-- Whatever is around it, `new` in the place of `old` brings in no occurrence of `n`. -/
def Keeps (n old new : Text) : Prop :=
  ∀ a b, n <:+: a ++ (new ++ b) → n <:+: a ++ old ∨ n <:+: old ++ b

theorem Apart.keeps (h : Apart n w) (old : Text) : Keeps n old w := by
  intro a b hn
  obtain hn | hn := h.sides hn
  · exact .inl (hn.trans (List.prefix_append a old).isInfix)
  · exact .inr (hn.trans (List.suffix_append old b).isInfix)

theorem Piece.infix_of_replace {f : Hit → Text} {ps : List Piece}
    (h : ∀ x ∈ hits ps, Keeps n x.covered (f x)) (hn : n <:+: a ++ replace f ps) :
    n <:+: a ++ replace Hit.covered ps := by
  induction ps generalizing a with
  | nil => exact hn
  | cons q ps ih =>
    cases q with
    | plain c =>
      rw [replace_plain, List.append_cons] at hn ⊢
      exact ih h hn
    | hit x =>
      rw [replace_hit] at hn ⊢
      obtain hn | hn := h x List.mem_cons_self _ _ hn
      · rw [← List.append_assoc]
        exact hn.trans (List.prefix_append _ _).isInfix
      · exact (ih (fun y hy => h y (List.mem_cons_of_mem x hy)) hn).trans
          (List.suffix_append a _).isInfix

/-- **No word comes up in a text if none comes up at a hit.** -/
theorem infix_of_replaceHits {p : Pattern} {f : Hit → Text} {t : Text}
    (h : ∀ x ∈ hits p t, Keeps n x.covered (f x)) (hn : n <:+: replaceHits p f t) : n <:+: t := by
  have hall := Piece.infix_of_replace (a := []) h hn
  rwa [List.nil_append, replace_covered_scan] at hall

theorem infix_of_replaceFirst {p : Pattern} {new t : Text}
    (h : ∀ m, firstMatch? p t = some m → Keeps n m.covered new)
    (hn : n <:+: replaceFirst p new t) : n <:+: t := by
  rw [replaceFirst] at hn
  split at hn
  · next m hm =>
    rw [← firstMatch?_eq_some hm]
    rw [List.append_assoc] at hn ⊢
    obtain hn | hn := h m hm _ _ hn
    · rw [← List.append_assoc]
      exact hn.trans (List.prefix_append _ _).isInfix
    · exact hn.trans (List.suffix_append _ _).isInfix
  · exact hn

/-- **No word comes up in a text if none comes up on a line.** -/
theorem infix_of_unlines {ls : List Text} {t : Text} (nonempty : n ≠ []) (newline : '\n' ∉ n)
    (h : ∀ line ∈ ls, n <:+: line → n <:+: t) (hn : n <:+: unlines ls) : n <:+: t := by
  by_cases hls : ls = []
  · subst hls
    exact absurd (List.infix_nil.mp hn) nonempty
  · obtain ⟨line, hline, hn⟩ := (infix_unlines_iff newline hls).mp hn
    exact h line hline hn

theorem isInfix_of_mem_lines {line t : Text} (h : line ∈ lines t) : line <:+: t :=
  (infix_iff_lines (newline_not_mem_of_mem_lines h)).mpr ⟨line, h, List.infix_rfl⟩

theorem isInfix_getD_lines (t : Text) (k : Nat) : (lines t).getD k [] <:+: t := by
  rw [List.getD_eq_getElem?_getD]
  cases h : (lines t)[k]? with
  | none => exact List.nil_infix
  | some line => exact isInfix_of_mem_lines (List.mem_of_getElem? h)

theorem isInfix_intercalate {s : Text} : ∀ {ws : List Text}, w ∈ ws →
    w <:+: List.intercalate s ws
  | [], h => absurd h List.not_mem_nil
  | [w'], h => by
    obtain rfl := List.mem_singleton.mp h
    simp
  | w' :: w'' :: ws, h => by
    rw [List.intercalate_cons_cons]
    obtain rfl | h := List.mem_cons.mp h
    · rw [List.append_assoc]
      exact (List.prefix_append _ _).isInfix
    · exact (isInfix_intercalate h).trans (List.suffix_append _ _).isInfix

theorem isInfix_of_mem_splitOn {s t : Text} {c : Char} (h : s ∈ t.splitOn c) : s <:+: t := by
  have e : List.intercalate [c] (t.splitOn c) = t := List.intercalate_splitOn c
  exact e ▸ isInfix_intercalate h

/-- Texts with `w` between them are kept apart. -/
theorem Apart.exists_of_intercalate (h : Apart n w) : ∀ {ws : List Text},
    n <:+: List.intercalate w ws → ∃ s ∈ ws, n <:+: s
  | [], hn => absurd (List.infix_nil.mp hn) h.word_ne_nil
  | [s], hn => ⟨s, by simp, by simpa using hn⟩
  | s :: s' :: ws, hn => by
    rw [List.intercalate_cons_cons, List.append_assoc] at hn
    obtain hn | hn := h.sides hn
    · exact ⟨s, by simp, hn⟩
    · obtain ⟨x, hx, hn⟩ := h.exists_of_intercalate hn
      exact ⟨x, List.mem_cons_of_mem s hx, hn⟩

/-! ## Words that are replaced themselves -/

section Exactly

variable {b : Option Char} {l k : Nat} {t : Text} {ps : List Piece}

/-- The rest of a word does not get into what words are replaced with. -/
theorem Apart.prefix_of_prefix_replace (h : Apart n w)
    (s : Scanned (.anywhere (.exactly n)) b l k t ps) {m : Text} (hm : m <:+ n)
    (hpre : m <+: Piece.replace (fun _ => w) ps) : m <+: t := by
  induction s generalizing m with
  | nil => exact hpre
  | plain _ _ ih =>
    cases m with
    | nil => exact List.nil_prefix
    | cons d m =>
      rw [Piece.replace_plain, List.cons_prefix_cons] at hpre
      obtain ⟨rfl, hpre⟩ := hpre
      exact List.cons_prefix_cons.mpr ⟨rfl, ih ((List.suffix_cons d m).trans hm) hpre⟩
  | hit _ _ _ _ =>
    obtain ⟨x, hx⟩ := hm
    rw [h.suffix_left hx.symm hpre]
    exact List.nil_prefix

theorem Apart.not_infix_replace (h : Apart n w)
    (s : Scanned (.anywhere (.exactly n)) b l k t ps) :
    ¬ n <:+: Piece.replace (fun _ => w) ps := by
  induction s with
  | nil => exact fun hn => h.word_ne_nil (List.infix_nil.mp hn)
  | @plain b l k c t ps unread rest ih =>
    intro hn
    obtain hn | hn := List.infix_cons_iff.mp hn
    · -- the word would have been hit here
      have hpre : n <+: c :: t :=
        h.prefix_of_prefix_replace (.plain unread rest) List.suffix_rfl hn
      obtain ⟨d, n', rfl⟩ := List.exists_cons_of_ne_nil h.word_ne_nil
      refine unread n'.length ?_
      rw [Pattern.anywhere, Reader.exactly, if_pos (List.isPrefixOf_iff_prefix.mpr hpre)]
      rfl
    · exact ih hn
  | hit _ _ _ ih => exact fun hn => ih (h.infix_right hn)

/-- **A word is gone where it was replaced** with one that keeps what is around it apart. -/
theorem Apart.not_infix_replaceHits (h : Apart n w) (t : Text) :
    ¬ n <:+: replaceHits (.anywhere (.exactly n)) (fun _ => w) t :=
  h.not_infix_replace (scanned_scan (.anywhere (.exactly n)) t)

end Exactly

end Mend.Text

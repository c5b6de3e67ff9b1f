import Mend.Proofs.Text.Scanning
import Mend.Text.Markup
import Mend.Text.Raw

/-!
# Markup that shows a text as it is

* `escapeMarkup_append`: what cannot belong to a tag stays as it is in front of a text.
* `RawText.escape`: the same for texts with halves of surrogate pairs, which belong to no tag.
-/

namespace Mend

namespace Text

/-! ## Replacing without looking back -/

section Replacing

variable {r : Reader} {g : Text → Text}

/-- What is replaced from a place on is told by the characters from there on. -/
theorem replace_scanOnto (t : Text) (k k' : Cursor) (pieces : List Piece)
    (h : k.covered = k'.covered) :
    Piece.replace (fun x => g x.covered) (scanOnto (.anywhere r) k t pieces).reverse =
      Piece.replace (fun x => g x.covered) pieces.reverse ++
        Piece.replace (fun x => g x.covered) (scanOnto (.anywhere r) k' t []).reverse := by
  induction t generalizing k k' pieces with
  | nil => simp [scanOnto]
  | cons c t ih =>
    have hpush : ∀ (j j' : Cursor) (x y : Piece), j.covered = j'.covered →
        Piece.replace (fun x => g x.covered) [x] = Piece.replace (fun x => g x.covered) [y] →
        Piece.replace (fun x => g x.covered) (scanOnto (.anywhere r) j t (x :: pieces)).reverse =
          Piece.replace (fun x => g x.covered) pieces.reverse ++
            Piece.replace (fun x => g x.covered) (scanOnto (.anywhere r) j' t [y]).reverse := by
      intro j j' x y hj hxy
      rw [ih j j' (x :: pieces) hj, ih j' j' [y] rfl]
      simp only [Piece.replace, List.reverse_cons, List.reverse_nil, List.nil_append,
        List.flatMap_append, List.append_assoc] at hxy ⊢
      rw [hxy]
    rw [scanOnto, scanOnto, ← h]
    cases k.covered with
    | succ n => exact ih _ _ _ rfl
    | zero =>
      unfold Pattern.anywhere at hpush ⊢
      rcases r (c :: t) with _ | _ | n
      · exact hpush _ _ _ _ rfl rfl
      · exact hpush _ _ _ _ rfl rfl
      · exact hpush _ _ _ _ rfl rfl

/-- A character at which nothing is read stays in front of what is replaced behind it. -/
theorem replaceHits_cons {c : Char} {t : Text} (h : ∀ n, r (c :: t) ≠ some (n + 1)) :
    replaceHits (.anywhere r) (fun x => g x.covered) (c :: t) =
      c :: replaceHits (.anywhere r) (fun x => g x.covered) t := by
  have hscan : scanOnto (.anywhere r) {} (c :: t) [] =
      scanOnto (.anywhere r) (Cursor.past {} c 0 0) t [.plain c] := by
    rw [scanOnto]
    dsimp only [Pattern.anywhere]
    split
    · next n hn => exact absurd hn (h n)
    · rfl
  unfold replaceHits scan
  rw [hscan, replace_scanOnto t (Cursor.past {} c 0 0) {} [.plain c] rfl]
  rfl

end Replacing

/-! ## Escaping -/

variable {c : Char} {before : Text}

/-- A tag begins with an opening bracket or with backslashes in front of it. -/
theorem replaceHits_tag_cons (hbracket : c ≠ '[') (hslash : c ≠ '\\') (t : Text) :
    replaceHits tag (fun x => escapedTag x.covered) (c :: t) =
      c :: replaceHits tag (fun x => escapedTag x.covered) t := by
  have hrun : run (· == '\\') ([] ++ c :: t) = 0 :=
    Reader.run_append (by simp) (by simpa using hslash)
  rw [List.nil_append] at hrun
  refine replaceHits_cons fun n => ?_
  unfold Reader.seq Reader.many
  dsimp only
  rw [hrun, List.drop_zero]
  unfold Reader.seq Reader.one
  simp [hbracket]

/-- **What cannot belong to a tag stays as it is in front of a text.** -/
theorem escapeMarkup_append (h : ∀ c ∈ before, c ≠ '[' ∧ c ≠ '\\') (t : Text) :
    escapeMarkup (before ++ t) = before ++ escapeMarkup t := by
  have hreplace : replaceHits tag (fun x => escapedTag x.covered) (before ++ t) =
      before ++ replaceHits tag (fun x => escapedTag x.covered) t := by
    induction before with
    | nil => rfl
    | cons c before ih =>
      rw [List.forall_mem_cons] at h
      rw [List.cons_append, replaceHits_tag_cons h.1.1 h.1.2, ih h.2]
      rfl
  unfold escapeMarkup
  rw [hreplace]
  generalize replaceHits tag (fun x => escapedTag x.covered) t = escaped
  -- a backslash at the end is one of `escaped`, and so is one in front of it
  have hlast : ∀ c rest, before.reverse = c :: rest → c ≠ '\\' := by
    intro c rest hc
    exact (h c (List.mem_reverse.mp (hc ▸ List.mem_cons_self))).2
  dsimp only
  rw [List.reverse_append]
  rcases hescaped : escaped.reverse with _ | ⟨x, rest⟩
  · obtain rfl := List.reverse_eq_nil_iff.mp hescaped
    rcases hbefore : before.reverse with _ | ⟨z, rest⟩
    · simp
    · simp [hlast z rest hbefore]
  · by_cases hx : x = '\\'
    · obtain rfl := hx
      rcases rest with _ | ⟨y, rest⟩
      · rcases hbefore : before.reverse with _ | ⟨z, rest⟩
        · simp
        · simp [hlast z rest hbefore]
      · by_cases hy : y = '\\'
        · simp [hy]
        · simp [hy]
    · simp [hx]

end Text

namespace RawText

/-! ## Raw texts -/

@[simp] theorem ofString_append (s t : String) : ofString (s ++ t) = ofString s ++ ofString t := by
  unfold ofString
  rw [String.toList_append, List.map_append]

@[simp] theorem string_ofString (s : String) : (ofString s).string = s := by
  unfold string ofString
  rw [List.map_map]
  exact (congrArg String.ofList (List.map_id s.toList)).trans (String.ofList_toList ..)

/-- Puts halves back where a text shows them, which has more characters between. -/
def restore : RawText → Text → RawText
  | _, [] => []
  | [], c :: rest => (c :: rest).map .char
  | p :: t, c :: rest =>
    if c = p.shown then p :: restore t rest else .char c :: restore (p :: t) rest

/-- A raw text that is shown as it is. Halves are no part of tags, so they stay where they are. -/
def escape (t : RawText) : RawText := restore t (Text.escapeMarkup (t.map Point.shown))

theorem restore_map_char (t u : Text) : restore (t.map .char) u = u.map .char := by
  induction u generalizing t with
  | nil => cases t <;> rfl
  | cons c u ih =>
    cases t with
    | nil => rfl
    | cons d t =>
      have hrest := ih (d :: t)
      rw [List.map_cons] at hrest ⊢
      unfold restore
      split
      · next h =>
        obtain rfl : c = d := h
        rw [ih, List.map_cons]
      · rw [hrest, List.map_cons]

/-- Strings are escaped as such. -/
theorem escape_ofString (s : String) : escape (ofString s) = ofString (Text.escapeString s) := by
  have hshown : (ofString s).map Point.shown = s.toList := by
    unfold ofString
    rw [List.map_map]
    exact List.map_id s.toList
  unfold escape
  rw [hshown]
  unfold ofString Text.escapeString
  rw [restore_map_char, String.toList_ofList]

end RawText

end Mend

import Mend.Project.Path
import Mend.Proofs.Text.Lines

/-!
# Paths and their texts

* `plain_ofText`: what is read from a text is a plain path.
* `Plain.ofText_text`: a plain path is read back from its text.
* `ofText_string_text`: so is a path that a string writes, also from its text as a string.
-/

namespace Mend

/-- A raw text of characters is told by the string that shows it. -/
theorem RawText.ofString_string {t : RawText} (h : ∀ x ∈ t, ∃ c, x = .char c) :
    ofString t.string = t := by
  unfold ofString string
  rw [String.toList_ofList, List.map_map]
  refine (List.map_congr_left fun x hx => ?_).trans (List.map_id t)
  obtain ⟨c, rfl⟩ := h x hx
  rfl

namespace Path

/-- A path whose text writes that path: its names are names, and none of them has a slash. -/
structure Plain (p : Path) : Prop where
  slashes : p.slashes ≤ 2
  isName : ∀ n ∈ p.names, isName n = true
  slash_not_mem : ∀ n ∈ p.names, slash ∉ n

theorem slashesOf_le (n : Nat) : slashesOf n ≤ 2 := by
  unfold slashesOf
  split <;> omega

/-- **What is read from a text is a plain path.** -/
theorem plain_ofText (s : RawText) : (ofText s).Plain where
  slashes := slashesOf_le _
  isName := fun _ hn => (List.mem_filter.mp hn).2
  slash_not_mem := fun _ hn => Text.not_mem_of_mem_splitOn (List.mem_filter.mp hn).1

theorem join_of_isAbsolute (p : Path) {q : Path} (h : q.isAbsolute = true) : p.join q = q :=
  if_pos h

theorem join_join_of_isAbsolute {p : Path} (h : p.isAbsolute = true) (q : Path) :
    p.join (p.join q) = p.join q := by
  refine join_of_isAbsolute p ?_
  unfold join
  split
  · next habsolute => exact habsolute
  · exact h

theorem join_names (p : Path) (names : List RawText) :
    p.join { names } = { p with names := p.names ++ names } := rfl

theorem Plain.join {p q : Path} (hp : p.Plain) (hq : q.Plain) : (p.join q).Plain := by
  unfold Path.join
  split
  · exact hq
  · refine ⟨hp.slashes, fun n hn => ?_, fun n hn => ?_⟩ <;> rcases List.mem_append.mp hn with h | h
    · exact hp.isName n h
    · exact hq.isName n h
    · exact hp.slash_not_mem n h
    · exact hq.slash_not_mem n h

theorem pieces_replicate_append (k : Nat) (t : RawText) :
    pieces (List.replicate k slash ++ t) = List.replicate k [] ++ pieces t := by
  induction k with
  | zero => rfl
  | succ k ih =>
    unfold pieces at ih ⊢
    rw [List.replicate_succ, List.cons_append, List.splitOn_cons_eq_if_modifyHead, ih]
    simp [List.replicate_succ]

theorem filter_isName_replicate (k : Nat) :
    (List.replicate k ([] : RawText)).filter isName = [] :=
  List.filter_eq_nil_iff.mpr fun n hn => by simp [List.eq_of_mem_replicate hn, Path.isName]

namespace Plain

variable {p : Path}

theorem filter_names (h : p.Plain) : p.names.filter Path.isName = p.names :=
  List.filter_eq_self.mpr h.isName

/-- The text of the names does not begin with a slash. -/
theorem takeWhile_names (h : p.Plain) :
    (List.intercalate [slash] p.names).takeWhile (· == slash) = [] := by
  obtain ⟨slashes, names⟩ := p
  cases names with
  | nil => rfl
  | cons n ns =>
    have hname : Path.isName n = true := h.isName n (by simp)
    have hslash : slash ∉ n := h.slash_not_mem n (by simp)
    cases n with
    | nil => exact absurd hname (by decide)
    | cons c n =>
      have hc : ¬ (c == slash) = true := fun hc => hslash (by simp [eq_of_beq hc])
      cases ns with
      | nil => exact List.takeWhile_cons_of_neg hc
      | cons n' ns =>
        rw [List.intercalate_cons_cons, List.append_assoc, List.cons_append]
        exact List.takeWhile_cons_of_neg hc

theorem pieces_names (h : p.Plain) :
    (pieces (List.intercalate [slash] p.names)).filter Path.isName = p.names := by
  cases hnames : p.names with
  | nil => rfl
  | cons n ns =>
    have hpieces : pieces (List.intercalate [slash] (n :: ns)) = n :: ns :=
      List.splitOn_intercalate slash (hnames ▸ h.slash_not_mem) (by simp)
    rw [hpieces, ← hnames, h.filter_names]

/-- **A plain path is read back from its text.** -/
theorem ofText_text (h : p.Plain) : ofText p.text = p := by
  obtain ⟨t, ht⟩ : ∃ t, t = List.replicate p.slashes slash ++ List.intercalate [slash] p.names :=
    ⟨_, rfl⟩
  have hread : ofText t = p := by
    have hslashes : (t.takeWhile (· == slash)).length = p.slashes := by
      rw [ht, List.takeWhile_append_of_pos (by simp), h.takeWhile_names]
      simp
    have hnames : (pieces t).filter Path.isName = p.names := by
      rw [ht, pieces_replicate_append, List.filter_append, filter_isName_replicate, h.pieces_names]
      rfl
    unfold ofText slashesOf
    rw [hslashes, hnames, if_neg (by have := h.slashes; omega)]
  unfold text
  rw [← ht]
  cases t with
  | nil => exact hread
  | cons c t => exact hread

end Plain

/-- The path that a string writes is read back from its text as a string. -/
theorem ofText_string_text (file : String) :
    ofText (RawText.ofString (ofText (RawText.ofString file)).text.string) =
      ofText (RawText.ofString file) := by
  have hchars : ∀ x ∈ (ofText (RawText.ofString file)).text, ∃ c, x = Point.char c := by
    have hslash : ∃ c, slash = Point.char c := ⟨'/', rfl⟩
    have hnames : ∀ n ∈ (ofText (RawText.ofString file)).names, ∀ x ∈ n, ∃ c, x = Point.char c := by
      intro n hn x hx
      obtain ⟨c, -, rfl⟩ := List.mem_map.mp (Text.mem_of_mem_splitOn (List.mem_filter.mp hn).1 hx)
      exact ⟨c, rfl⟩
    intro x hx
    unfold text at hx
    dsimp only at hx
    split at hx
    · exact ⟨'.', List.mem_singleton.mp hx⟩
    · rcases List.mem_append.mp hx with hx | hx
      · exact (List.eq_of_mem_replicate hx) ▸ hslash
      · rcases Text.mem_of_mem_intercalate hx with hx | ⟨n, hn, hx⟩
        · exact (List.mem_singleton.mp hx) ▸ hslash
        · exact hnames n hn x hx
  rw [RawText.ofString_string hchars, (plain_ofText _).ofText_text]

end Path

end Mend

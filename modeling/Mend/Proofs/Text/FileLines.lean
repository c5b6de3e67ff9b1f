import Mend.Proofs.Text.Encoding
import Mend.Proofs.Text.Lines

/-!
# Lines of files

A line of a file ends in a newline, a carriage return or both, and the last line in nothing. What is
read of a file tells its lines, but not what ends them.

* `map_content_fileLines`: **the lines that are read of a file are its lines without their ends**.
* `fileLines_of_not_mem`: without carriage returns every line but the last ends in a newline.
-/

namespace Mend.Text

/-- A line of a file with the characters that end it. -/
structure FileLine where
  content : Text
  ending : Text
  deriving DecidableEq, Repr

namespace FileLine

/-- A line with one more character in front. -/
def extend (c : Char) (l : FileLine) : FileLine := { l with content := c :: l.content }

end FileLine

/-- The lines of a file. -/
def fileLines : Text → List FileLine
  | [] => [⟨[], []⟩]
  | '\r' :: '\n' :: t => ⟨[], ['\r', '\n']⟩ :: fileLines t
  | c :: t =>
    if c = '\r' ∨ c = '\n' then ⟨[], [c]⟩ :: fileLines t else (fileLines t).modifyHead (.extend c)

/-! ## What is read -/

theorem foldl_foldLineEnd_append (t done : Text) (b : Bool) :
    (t.foldl foldLineEnd (done, b)).1 = (t.foldl foldLineEnd ([], b)).1 ++ done := by
  induction t generalizing done b with
  | nil => rfl
  | cons c t ih =>
    obtain ⟨new, b', hnew⟩ : ∃ new b', ∀ done, foldLineEnd (done, b) c = (new ++ done, b') := by
      unfold foldLineEnd
      by_cases hreturn : c = '\r'
      · exact ⟨['\n'], true, fun done => by rw [if_pos hreturn]; rfl⟩
      by_cases hpair : (decide (c = '\n') && b) = true
      · exact ⟨[], false, fun done => by rw [if_neg hreturn, if_pos hpair]; rfl⟩
      · exact ⟨[c], false, fun done => by rw [if_neg hreturn, if_neg hpair]; rfl⟩
    rw [List.foldl_cons, List.foldl_cons, hnew, hnew, ih, ih (new ++ []), List.append_nil,
      List.append_assoc]

theorem withNewlines_cons {c : Char} (hc : c ≠ '\r') (t : Text) :
    withNewlines (c :: t) = c :: withNewlines t := by
  have hstep : foldLineEnd ([], false) c = ([c], false) := by simp [foldLineEnd, hc]
  unfold withNewlines
  rw [List.foldl_cons, hstep, foldl_foldLineEnd_append]
  simp

/-- A carriage return with a newline behind it is read as one newline. -/
theorem withNewlines_return_newline (t : Text) :
    withNewlines ('\r' :: '\n' :: t) = '\n' :: withNewlines t := by
  have hstep : foldLineEnd (foldLineEnd ([], false) '\r') '\n' = (['\n'], false) := rfl
  unfold withNewlines
  rw [List.foldl_cons, List.foldl_cons, hstep, foldl_foldLineEnd_append]
  simp

/-- A carriage return by itself is read as a newline. -/
theorem withNewlines_return {t : Text} (h : ∀ u, t ≠ '\n' :: u) :
    withNewlines ('\r' :: t) = '\n' :: withNewlines t := by
  have hstep : foldLineEnd ([], false) '\r' = (['\n'], true) := rfl
  have hflag : (t.foldl foldLineEnd ([], true)).1 = (t.foldl foldLineEnd ([], false)).1 := by
    cases t with
    | nil => rfl
    | cons c t =>
      have hc : c ≠ '\n' := fun heq => h t (by rw [heq])
      simp [foldLineEnd, hc]
  unfold withNewlines
  rw [List.foldl_cons, hstep, foldl_foldLineEnd_append, hflag]
  simp

/-- **The lines that are read of a file are its lines without their ends.** -/
theorem map_content_fileLines (t : Text) :
    (fileLines t).map FileLine.content = lines (withNewlines t) := by
  induction t using fileLines.induct with
  | case1 => rfl
  | case2 t ih =>
    rw [fileLines, List.map_cons, ih, withNewlines_return_newline, lines_cons, if_pos rfl]
  | case3 c t h hc ih =>
    have hread : withNewlines (c :: t) = '\n' :: withNewlines t := by
      obtain rfl | rfl := hc
      · exact withNewlines_return fun u hu => h u rfl hu
      · exact withNewlines_cons (by decide) t
    rw [fileLines.eq_3 c t h, if_pos hc, List.map_cons, ih, hread, lines_cons, if_pos rfl]
  | case4 c t h hc ih =>
    rw [not_or] at hc
    have hextend : ∀ l : FileLine, (l.extend c).content = c :: l.content := fun _ => rfl
    rw [fileLines.eq_3 c t h, if_neg (not_or.mpr hc), withNewlines_cons hc.1, lines_cons,
      if_neg hc.2, ← ih]
    cases fileLines t <;> simp [hextend]

theorem length_fileLines (t : Text) : (fileLines t).length = (lines (withNewlines t)).length := by
  rw [← map_content_fileLines, List.length_map]

/-! ## What ends a line -/

/-- A newline ends a line, or a carriage return of the file does, with or without a newline behind
it. -/
def Ends (t ending : Text) : Prop :=
  ending = ['\n'] ∨ '\r' ∈ t ∧ (ending = ['\r'] ∨ ending = ['\r', '\n'])

theorem Ends.cons {t ending : Text} (h : Ends t ending) (c : Char) : Ends (c :: t) ending :=
  h.imp_right fun h => ⟨List.mem_cons_of_mem c h.1, h.2⟩

/-- Something ends every line but the last. -/
theorem exists_fileLines_eq (t : Text) : ∃ init last, fileLines t = init ++ [last] ∧
    last.ending = [] ∧ ∀ l ∈ init, Ends t l.ending := by
  induction t using fileLines.induct with
  | case1 => exact ⟨[], ⟨[], []⟩, rfl, rfl, by simp⟩
  | case2 t ih =>
    obtain ⟨init, last, heq, hlast, hinit⟩ := ih
    refine ⟨⟨[], ['\r', '\n']⟩ :: init, last, by rw [fileLines, heq]; rfl, hlast, ?_⟩
    exact List.forall_mem_cons.mpr ⟨.inr ⟨List.mem_cons_self, .inr rfl⟩,
      fun l hl => ((hinit l hl).cons _).cons _⟩
  | case3 c t h hc ih =>
    obtain ⟨init, last, heq, hlast, hinit⟩ := ih
    refine ⟨⟨[], [c]⟩ :: init, last, by rw [fileLines.eq_3 c t h, if_pos hc, heq]; rfl, hlast, ?_⟩
    refine List.forall_mem_cons.mpr ⟨?_, fun l hl => (hinit l hl).cons c⟩
    obtain rfl | rfl := hc
    · exact .inr ⟨List.mem_cons_self, .inl rfl⟩
    · exact .inl rfl
  | case4 c t h hc ih =>
    obtain ⟨init, last, heq, hlast, hinit⟩ := ih
    rw [fileLines.eq_3 c t h, if_neg hc, heq]
    cases init with
    | nil => exact ⟨[], last.extend c, rfl, hlast, by simp⟩
    | cons l init =>
      rw [List.forall_mem_cons] at hinit
      refine ⟨l.extend c :: init, last, rfl, hlast, ?_⟩
      exact List.forall_mem_cons.mpr ⟨hinit.1.cons c, fun l hl => (hinit.2 l hl).cons c⟩

/-- **Nothing ends the last line of a file**, and every other line ends in a newline or a carriage
return or both. -/
theorem ending_of_getElem? {t : Text} {k : Nat} {l : FileLine} (h : (fileLines t)[k]? = some l) :
    if k + 1 < (fileLines t).length then Ends t l.ending else l.ending = [] := by
  obtain ⟨init, last, heq, hlast, hinit⟩ := exists_fileLines_eq t
  rw [heq] at h ⊢
  rw [List.length_append, List.length_singleton]
  obtain ⟨hk, rfl⟩ := List.getElem?_eq_some_iff.mp h
  split
  · next hlt =>
    rw [List.getElem_append_left (by omega)]
    exact hinit _ (List.getElem_mem _)
  · next hge =>
    rw [List.getElem_append_right (by omega)]
    simpa using hlast

/-- Without carriage returns, every line but the last ends in a newline. -/
theorem fileLines_of_not_mem {t : Text} (h : '\r' ∉ t) (k : Nat) : (fileLines t)[k]? =
    (lines t)[k]?.map fun line => ⟨line, if k + 1 < (lines t).length then ['\n'] else []⟩ := by
  have hcontent := map_content_fileLines t
  have hlength := length_fileLines t
  rw [withNewlines_of_not_mem h] at hcontent hlength
  cases hl : (fileLines t)[k]? with
  | none =>
    rw [← hcontent, List.getElem?_map, hl]
    rfl
  | some l =>
    have hending := ending_of_getElem? hl
    rw [hlength] at hending
    rw [← hcontent, List.getElem?_map, hl, Option.map_some, Option.map_some, hcontent]
    split at hending
    · next hlt =>
      rw [if_pos hlt, ← hending.resolve_right fun hreturn => h hreturn.1]
    · next hge => rw [if_neg hge, ← hending]

end Mend.Text

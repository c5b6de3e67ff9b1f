import Mathlib.Data.List.Induction
import Mathlib.Data.List.Perm.Basic
import Mend.Metrics

/-!
# Lines that are repeated

Duplicated lines are counted in one pass, which remembers how often it has seen each line. The first
line of a kind adds nothing, the second one adds both, and every later one adds itself. So a line is
counted exactly if there is another one like it, wherever that stands.

* `Repeats`: a line counts, and it is there at least twice.
* `newly_repeats_iff`: one more line makes an earlier one repeated that was the only one like it.
* `Repetition.Tallies.add`: what the pass has counted are the repeated lines that it has seen.
* `duplicates_eq`, `duplicates_counts_repeated`: **duplicated lines are the lines that are
  repeated**, in whatever order they stand.
-/

namespace Mend.Metrics

open Text

/-- A line counts for duplicates: it is not blank and starts no line comment. -/
def Counts (line : Text) : Prop := trim line ≠ [] ∧ ¬ ['/', '/'] <+: trim line

instance : DecidablePred Counts := fun _ => inferInstanceAs (Decidable (_ ∧ _))

/-- How many lines are the same as this one up to white space around them. -/
def copies (ls : List Text) (line : Text) : Nat := (ls.map trim).count (trim line)

/-- A line that counts is there at least twice. -/
def Repeats (ls : List Text) (line : Text) : Prop := Counts line ∧ 2 ≤ copies ls line

instance (ls : List Text) : DecidablePred (Repeats ls) := fun _ =>
  inferInstanceAs (Decidable (_ ∧ _))

variable {ls ls' : List Text} {line x : Text}

/-! ## One more line -/

theorem counts_congr (h : trim x = trim line) : Counts x ↔ Counts line := by
  rw [Counts, Counts, h]

theorem copies_congr (ls : List Text) (h : trim x = trim line) : copies ls x = copies ls line := by
  rw [copies, copies, h]

theorem copies_eq_countP (ls : List Text) (line : Text) :
    copies ls line = ls.countP fun x => trim x = trim line := by
  rw [copies, List.count, List.countP_map]
  exact List.countP_congr fun x _ => by simp

theorem copies_concat (ls : List Text) (line x : Text) :
    copies (ls ++ [line]) x = copies ls x + if trim line = trim x then 1 else 0 := by
  rw [copies, copies, List.map_append, List.count_append, List.map_singleton, List.count_singleton]
  simp

theorem Repeats.mono (h : ls.Sublist ls') (hx : Repeats ls x) : Repeats ls' x :=
  ⟨hx.1, Nat.le_trans hx.2 ((h.map trim).count_le _)⟩

/-- **One more line makes an earlier one repeated that was the only one like it.** -/
theorem newly_repeats_iff : (Repeats (ls ++ [line]) x ∧ ¬ Repeats ls x) ↔
    trim x = trim line ∧ Counts line ∧ copies ls line = 1 := by
  rw [Repeats, Repeats, copies_concat]
  by_cases hsame : trim x = trim line
  · rw [if_pos hsame.symm, counts_congr hsame, copies_congr ls hsame]
    by_cases hcounts : Counts line
    · simp only [hcounts, hsame, true_and]
      omega
    · simp [hcounts]
  · rw [if_neg (Ne.symm hsame), Nat.add_zero]
    exact iff_of_false (fun h => h.2 h.1) fun h => hsame h.1

/-- Of the lines in front of one more line, at most one is repeated only now. -/
theorem countP_repeats_front (ls : List Text) (line : Text) :
    ls.countP (Repeats (ls ++ [line]) ·) = ls.countP (Repeats ls ·) +
      if Counts line ∧ copies ls line = 1 then 1 else 0 := by
  have hsplit := List.countP_eq_countP_filter_add ls (Repeats (ls ++ [line]) ·) (Repeats ls ·)
  have hold : (ls.filter (Repeats ls ·)).countP (Repeats (ls ++ [line]) ·) =
      ls.countP (Repeats ls ·) := by
    rw [List.countP_filter]
    refine List.countP_congr fun x _ => ?_
    simpa using Repeats.mono (List.sublist_append_left ls [line])
  have hnew : (ls.filter fun x => !decide (Repeats ls x)).countP (Repeats (ls ++ [line]) ·) =
      if Counts line ∧ copies ls line = 1 then 1 else 0 := by
    have hnewly : (ls.filter fun x => !decide (Repeats ls x)).countP (Repeats (ls ++ [line]) ·) =
        ls.countP fun x => trim x = trim line ∧ Counts line ∧ copies ls line = 1 := by
      rw [List.countP_filter]
      exact List.countP_congr fun x _ => by simpa using newly_repeats_iff
    rw [hnewly]
    split
    · next h => simpa [h] using (copies_eq_countP ls line).symm.trans h.2
    · next h => simp [h]
  rw [hsplit, hold, hnew]

/-- **What one more line adds to the number of repeated lines.** -/
theorem countP_repeats_concat (ls : List Text) (line : Text) :
    (ls ++ [line]).countP (Repeats (ls ++ [line]) ·) = ls.countP (Repeats ls ·) +
      if Counts line then (if copies ls line = 0 then 0 else if copies ls line = 1 then 2 else 1)
      else 0 := by
  have hself : copies (ls ++ [line]) line = copies ls line + 1 := by
    rw [copies_concat, if_pos rfl]
  rw [List.countP_append, countP_repeats_front, List.countP_singleton]
  simp only [Repeats, hself, decide_eq_true_iff]
  by_cases hcounts : Counts line
  · simp only [hcounts, true_and, if_true]
    split_ifs <;> omega
  · simp [hcounts]

/-! ## The pass -/

namespace Repetition

/-- The pass stands behind these lines. -/
structure Tallies (r : Repetition) (ls : List Text) : Prop where
  seen_eq : ∀ line, Counts line → r.seen.getD (String.ofList (trim line)) 0 = copies ls line
  duplicated_eq : r.duplicated = ls.countP (Repeats ls ·)

theorem tallies_empty : Tallies {} [] where
  seen_eq _ _ := Std.HashMap.getD_empty
  duplicated_eq := rfl

theorem add_eq (r : Repetition) (line : Text) :
    r.add line =
      let key := String.ofList (trim line)
      let before := r.seen.getD key 0
      if Counts line then
        { seen := r.seen.insert key (before + 1)
          duplicated := r.duplicated + (if before = 0 then 0 else if before = 1 then 2 else 1) }
      else r := by
  have hcounts : (trim line).isEmpty || isLineComment (trim line) ↔ ¬ Counts line := by
    rw [Counts, isLineComment, Bool.or_eq_true, List.isEmpty_iff, List.isPrefixOf_iff_prefix]
    tauto
  unfold add
  dsimp only
  by_cases h : Counts line
  · rw [if_pos h, if_neg (mt hcounts.mp (not_not.mpr h))]
  · rw [if_neg h, if_pos (hcounts.mpr h)]

/-- **A line more keeps the tally.** -/
theorem Tallies.add {r : Repetition} (h : r.Tallies ls) (line : Text) :
    (r.add line).Tallies (ls ++ [line]) := by
  rw [add_eq]
  dsimp only
  split
  · next hcounts =>
    have hbefore := h.seen_eq line hcounts
    constructor
    · intro x hx
      rw [Std.HashMap.getD_insert, copies_concat, hbefore, ← h.seen_eq x hx]
      by_cases hsame : trim line = trim x
      · simp [hsame, h.seen_eq x hx, copies_congr ls hsame]
      · have hkey : String.ofList (trim line) ≠ String.ofList (trim x) :=
          fun e => hsame (String.ofList_injective e)
        simp [hsame, hkey]
    · rw [countP_repeats_concat, if_pos hcounts, hbefore, h.duplicated_eq]
  · next hcounts =>
    constructor
    · intro x hx
      have hne : trim line ≠ trim x := fun e => hcounts ((counts_congr e).mpr hx)
      rw [copies_concat, if_neg hne, h.seen_eq x hx, Nat.add_zero]
    · rw [countP_repeats_concat, if_neg hcounts, h.duplicated_eq, Nat.add_zero]

/-- The tally of a whole pass. -/
theorem tallies_foldl (ls : List Text) : (ls.foldl Repetition.add {}).Tallies ls := by
  induction ls using List.reverseRecOn with
  | nil => exact tallies_empty
  | append_singleton ls line ih =>
    rw [List.foldl_concat]
    exact ih.add line

end Repetition

/-! ## All lines -/

/-- **Duplicated lines are the lines that are repeated.** -/
theorem duplicates_eq (ls : List Text) : duplicates ls = ls.countP (Repeats ls ·) :=
  (Repetition.tallies_foldl ls).duplicated_eq

theorem repeats_congr (h : ls.Perm ls') : Repeats ls x ↔ Repeats ls' x := by
  rw [Repeats, Repeats, copies, copies, (h.map trim).count_eq]

theorem duplicates_perm (h : ls.Perm ls') : duplicates ls = duplicates ls' := by
  rw [duplicates_eq, duplicates_eq, h.countP_eq]
  exact List.countP_congr fun x _ => by simp [repeats_congr h]

/-- More lines have no fewer duplicates. -/
theorem duplicates_mono (h : ls.Sublist ls') : duplicates ls ≤ duplicates ls' := by
  rw [duplicates_eq, duplicates_eq]
  calc ls.countP (Repeats ls ·)
      ≤ ls.countP (Repeats ls' ·) :=
        List.countP_mono_left fun x _ hx => by simpa using Repeats.mono h (by simpa using hx)
    _ ≤ ls'.countP (Repeats ls' ·) := h.countP_le

/-- **Duplicated lines are the lines that are not blank, start no line comment and are there at
least twice**, up to white space around them. So they do not depend on the order of the lines, are
no more than these, and are no fewer where lines follow. -/
theorem duplicates_counts_repeated (ls : List Text) :
    duplicates ls = ls.countP (fun line => trim line ≠ [] ∧ ¬ ['/', '/'] <+: trim line ∧
      2 ≤ (ls.map trim).count (trim line)) ∧
    (∀ ls' : List Text, ls'.Perm ls → duplicates ls' = duplicates ls) ∧
    duplicates ls ≤ ls.length ∧
    ∀ more : List Text, duplicates ls ≤ duplicates (ls ++ more) := by
  refine ⟨?_, fun _ => duplicates_perm, ?_, fun more => ?_⟩
  · rw [duplicates_eq]
    refine List.countP_congr fun line _ => ?_
    simp [Repeats, Counts, copies, and_assoc]
  · rw [duplicates_eq]
    exact List.countP_le_length
  · exact duplicates_mono (List.sublist_append_left ls more)

/-- Three lines that differ in the white space around them, between others that are there once, are
blank or comments. -/
theorem duplicates_counts_repeated_sample :
    let a := "return;".toList
    let ls := [a, "// a".toList, "  return;".toList, [], "b".toList, "// a".toList, [],
      "return;\t".toList]
    ls.reverse.Perm ls ∧ duplicates ls = 3 ∧ duplicates ls.reverse = 3 := by
  intro a ls
  obtain ⟨heq, hperm, -⟩ := duplicates_counts_repeated ls
  have hreverse : ls.reverse.Perm ls := List.reverse_perm ls
  have hthree : duplicates ls = 3 := heq.trans (by decide +kernel)
  exact ⟨hreverse, hthree, (hperm _ hreverse).trans hthree⟩

end Mend.Metrics

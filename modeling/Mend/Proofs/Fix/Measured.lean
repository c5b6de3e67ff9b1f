import Mend.Fix.Quantum
import Mend.Proofs.Fix.Meant
import Mend.Proofs.Idiom
import Mend.Proofs.Text.Seams

/-!
# Measurements that are protected

The rule reports every raw measurement, and the fix goes by the line: it protects the first call on
the line of the issue, reported or not.

* `exists_call_of_firstMatch?`: the first call that the fix reads on a line.
* `fixed_protectMeasurement`: what the fix puts in the place of a call.
* `Protects`: the call that the fix protects.
* `protectMeasurement_protects_iff`: it is the reported call exactly if no call stands in front of
  that on its line.
-/

namespace Mend

open Text Reader

namespace Idiom

/-- A whole-word call stands on a line. -/
def Calls (line : Text) : Prop := ∃ x y, line = x ++ (rawCall ++ y) ∧ ¬ x.getLast?.any isWord

theorem reads_rawCall {x : Text} (hx : ¬ x.getLast?.any isWord) (v : Text) :
    Reads (measureCall x.getLast?) rawCall v :=
  reads_measureCall.mpr ⟨[], rfl, .inl rfl, hx⟩

/-- Calls do not overlap: the next one begins behind the end of the one before. -/
theorem rawCall_prefix_of_append_eq {gap after back : Text}
    (e : rawCall ++ after = gap ++ (rawCall ++ back)) (hgap : gap ≠ []) : rawCall <+: gap := by
  have honly : OnlyInFront rawCall rawCall := by decide
  obtain ⟨s, hs, hback⟩ | ⟨y, hy, -⟩ := List.append_eq_append_iff.mp e.symm
  · by_cases hnil : s = []
    · exact ⟨[], by rw [hs, hnil, List.append_nil, List.append_nil]⟩
    · exact absurd hback (honly.append_ne hs hgap hnil _ _)
  · exact ⟨y, hy.symm⟩

/-- **The first call that the fix reads is the one behind `line` exactly if there is none on
`line`.** No call begins in the `await` in front of one. -/
theorem exists_call_of_firstMatch? {line back : Text} {m : Match}
    (h : firstMatch? measureCall (line ++ (rawCall ++ back)) = some m)
    (hword : ¬ line.getLast?.any isWord) : ∃ w, m.covered = w ++ rawCall ∧ Awaiting w ∧
      (m.before ++ w = line ↔ ¬ Calls line) := by
  obtain ⟨w, hcovered, hw, hcall⟩ := reads_measureCall.mp (firstMatch?_reads h).2
  rw [← List.getLast?_append] at hcall
  refine ⟨w, hcovered, hw, ?_, ?_⟩
  · rintro rfl ⟨x, y, hx, hxword⟩
    rw [hx, List.append_assoc, List.append_assoc] at h
    obtain ⟨z, rfl⟩ := before_isPrefix_of_firstMatch? h (by decide) (reads_rawCall hxword _)
    rw [List.append_assoc] at hx
    have hmem : '(' ∈ w := by
      rw [List.append_cancel_left hx]
      exact List.mem_append_right z (List.mem_append_left y (by decide))
    exact (hw.ne '(' hmem).2 rfl
  · intro hnone
    obtain ⟨z, rfl⟩ := before_isPrefix_of_firstMatch? h (by decide) (reads_rawCall hword _)
    have e := firstMatch?_eq_some h
    rw [hcovered, List.append_assoc, List.append_assoc, List.append_assoc] at e
    rw [List.append_cancel_left_eq]
    obtain ⟨d, rfl, hrest⟩ | ⟨d, rfl, hrest⟩ :=
      List.append_eq_append_iff.mp (List.append_cancel_left e)
    · -- a call that begins in front of the end of the line also ends there
      by_contra hne
      have hd : d ≠ [] := by
        rintro rfl
        exact hne (List.append_nil w).symm
      obtain ⟨y, rfl⟩ := rawCall_prefix_of_append_eq hrest hd
      exact hnone ⟨m.before ++ w, y, by simp only [List.append_assoc], hcall⟩
    · cases d with
      | nil => exact List.append_nil z
      | cons c d =>
        have hm : rawCall = 'm' :: "easureQuantum(".toList := by decide
        rw [hm, List.cons_append, List.cons_append] at hrest
        exact absurd (List.cons.inj hrest).1.symm (hw.ne c (by simp)).1

end Idiom

namespace Fix

open Idiom

variable {t a u v : Text} {i : Issue} {m : Match}

theorem success_protectMeasurement_iff :
    (protectMeasurement t i).success ↔ ∃ m, meant? measureCall t i = some m := by
  rw [exists_meant?_iff, protectMeasurement]
  dsimp only
  split
  · next hnone =>
    refine iff_of_false Bool.false_ne_true ?_
    rintro ⟨k, hk⟩
    rw [hnone] at hk
    cases hk
  · next k hk => exact iff_of_true rfl ⟨k, hk⟩

/-- The import of the protection, as a line of its own, if a text does not mention it. -/
def importing (t : Text) : Text :=
  if contains protectedCall t then [] else protectionImport ++ ['\n']

theorem fixed_protectMeasurement (h : meant? measureCall t i = some m) :
    t = m.before ++ (m.covered ++ m.after) ∧
    (protectMeasurement t i).fixed =
      importing t ++ (m.before ++ ("await ".toList ++ protectedCall ++ '(' :: m.after)) := by
  obtain ⟨k, hk⟩ := exists_meant?_iff.mp ⟨m, h⟩
  obtain ⟨ht, hnew⟩ := text_of_meant h hk
  refine ⟨ht, ?_⟩
  have hreplaced := hnew ("await ".toList ++ protectedCall ++ ['('])
  rw [List.append_assoc _ ['('], List.singleton_append] at hreplaced
  rw [← hreplaced, protectMeasurement, importing]
  dsimp only
  rw [hk]
  dsimp only
  split
  · rfl
  · rw [← List.singleton_append, unlines_append (List.cons_ne_nil _ _) (by simp [replaceLine]),
      List.append_assoc]
    rfl

/-- The fix protects the call behind `a`, with the `await` in front of it. -/
def Protects (t : Text) (i : Issue) (a : Text) : Prop :=
  ∃ m w, meant? measureCall t i = some m ∧ m.covered = w ++ rawCall ∧ Awaiting w ∧
    m.before ++ w = a

/-- **For a reported whole-word call the fix succeeds, and it protects that call exactly if no call
stands in front of it on its line.** -/
theorem protects_iff (h : Rule.decoherenceRisk.ReportsAt rawMeasurement i a u v)
    (hcall : rawCall <+: u) (hword : ¬ a.getLast?.any isWord) :
    (∃ m, meant? measureCall (a ++ (u ++ v)) i = some m) ∧
    (Protects (a ++ (u ++ v)) i a ↔ ¬ Calls ((lines a).getLast (lines_ne_nil a))) := by
  obtain ⟨u, rfl⟩ := hcall
  have starts : ¬ (rawCall ++ u).head?.any isBlank := (by decide : ¬ isBlank 'm')
  obtain ⟨init, last, head, tail, ha, hrest, -, hmeant⟩ := exists_line_of_reportsAt h starts
  have hprefix : rawCall <+: unlines (head :: tail) := by
    rw [← hrest, unlines_lines, List.append_assoc]
    exact List.prefix_append _ _
  obtain ⟨back, rfl⟩ := prefix_line_of_prefix_unlines (by decide) hprefix
  have htext : a = unlines (init ++ [[]]) ++ last := by
    rw [← unlines_concat, ← ha, unlines_lines]
  have hlast : ¬ last.getLast?.any isWord := by
    cases hl : last.getLast? with
    | none => simp
    | some c => rwa [htext, List.getLast?_append, hl] at hword
  have found : occurs measureCall (last ++ (rawCall ++ back)) :=
    occurs_iff_reads.mpr ⟨last, rawCall, back, rfl, by decide, reads_rawCall hlast _⟩
  obtain ⟨m, hm⟩ := occurs_iff.mp found
  obtain ⟨w, hcovered, hw, hfirst⟩ := exists_call_of_firstMatch? hm hlast
  have hmeant := hmeant found
  rw [hm, Option.map_some] at hmeant
  have hline : (lines a).getLast (lines_ne_nil a) = last := by simp [ha]
  refine ⟨⟨_, hmeant⟩, ?_⟩
  rw [hline, ← hfirst]
  constructor
  · rintro ⟨m', w', hm', hcovered', -, hbefore⟩
    obtain rfl := Option.some.inj (hmeant.symm.trans hm')
    obtain rfl : w = w' := List.append_cancel_right (hcovered.symm.trans hcovered')
    rw [unlines_concat, List.append_assoc, htext] at hbefore
    exact List.append_cancel_left hbefore
  · intro e
    exact ⟨_, w, hmeant, hcovered, hw, by rw [unlines_concat, List.append_assoc, e, htext]⟩

/-- **Which call is protected.** The fix puts the protection in the place of one call, with the
`await` in front of it. For an issue about a whole-word call it succeeds, and it is that call exactly
if no call stands in front of it on its line. -/
theorem protectMeasurement_protects_iff (t : Text) (i : Issue) :
    ((protectMeasurement t i).success ↔ ∃ m, meant? measureCall t i = some m) ∧
    (∀ m, meant? measureCall t i = some m →
      (∃ w, m.covered = w ++ rawCall ∧ Awaiting w) ∧ t = m.before ++ (m.covered ++ m.after) ∧
      (protectMeasurement t i).fixed =
        importing t ++ (m.before ++ ("await ".toList ++ protectedCall ++ '(' :: m.after))) ∧
    (i ∈ Rule.decoherenceRisk.reported t → ∃ a u v, t = a ++ (u ++ v) ∧
      Rule.decoherenceRisk.ReportsAt rawMeasurement i a u v) ∧
    ∀ a u v, t = a ++ (u ++ v) → Rule.decoherenceRisk.ReportsAt rawMeasurement i a u v →
      rawCall <+: u → ¬ a.getLast?.any isWord →
        (protectMeasurement t i).success ∧
        (Protects t i a ↔ ¬ Calls ((lines a).getLast (lines_ne_nil a))) := by
  refine ⟨success_protectMeasurement_iff, fun m hm => ⟨?_, fixed_protectMeasurement hm⟩,
    Rule.exists_reportsAt rfl, ?_⟩
  · obtain ⟨k, m', -, hm', rfl⟩ := meant?_eq_some_iff.mp hm
    obtain ⟨w, hcovered, hw, -⟩ := reads_measureCall.mp (firstMatch?_reads hm').2
    exact ⟨w, hcovered, hw⟩
  · rintro a u v rfl h hcall hword
    obtain ⟨hsome, hiff⟩ := protects_iff h hcall hword
    exact ⟨success_protectMeasurement_iff.mpr hsome, hiff⟩

/-- Below a call that nothing reports, a measurement is protected with the `await` in front of it. -/
theorem protectMeasurement_protects_iff_sample :
    let a := "use(measureQuantum(a))\n  await ".toList
    let u := "measureQuantum(b);".toList
    let i := Rule.decoherenceRisk.issue { line := some 2, evidence := u }
    let m : Match :=
      ⟨"use(measureQuantum(a))\n  ".toList, "await measureQuantum(".toList, "b);".toList⟩
    i ∈ Rule.decoherenceRisk.reported (a ++ u) ∧
    Rule.decoherenceRisk.ReportsAt rawMeasurement i a u [] ∧ rawCall <+: u ∧
    ¬ a.getLast?.any isWord ∧ (protectMeasurement (a ++ u) i).success ∧
    Protects (a ++ u) i a ∧ meant? measureCall (a ++ u) i = some m ∧
    (protectMeasurement (a ++ u) i).fixed =
      importing (a ++ u) ++ (m.before ++ ("await ".toList ++ protectedCall ++ '(' :: m.after)) := by
  intro a u i m
  have hread : Reads (rawMeasurement a.getLast?) u [] := by
    unfold Reads
    decide +kernel
  have hreported : Rule.decoherenceRisk.ReportsAt rawMeasurement i a u [] := ⟨hread, rfl⟩
  have hcall : rawCall <+: u := by decide
  have hword : ¬ a.getLast?.any isWord := by decide
  have hmeant : meant? measureCall (a ++ u) i = some m := by decide +kernel
  obtain ⟨-, hfixed, -, hprotects⟩ := protectMeasurement_protects_iff (a ++ u) i
  obtain ⟨hsuccess, hiff⟩ := hprotects a u [] (by simp) hreported hcall hword
  have hnone : ¬ Calls "  await ".toList := by
    rintro ⟨x, y, e, -⟩
    have hmem : '(' ∈ "  await ".toList := by
      rw [e]
      exact List.mem_append_right x (List.mem_append_left y (by decide))
    exact absurd hmem (by decide)
  exact ⟨by decide +kernel, hreported, hcall, hword, hsuccess, hiff.mpr hnone, hmeant,
    (hfixed m hmeant).2.2⟩

/-- **A call is protected that was not reported**, and the reported one stays as it is. -/
theorem protectMeasurement_misses_reported :
    let a := "use(measureQuantum(a)); ".toList
    let u := "measureQuantum(b);".toList
    let i := Rule.decoherenceRisk.issue { line := some 1, evidence := u }
    i ∈ Rule.decoherenceRisk.reported (a ++ u) ∧
    Rule.decoherenceRisk.ReportsAt rawMeasurement i a u [] ∧ rawCall <+: u ∧
    ¬ a.getLast?.any isWord ∧ (protectMeasurement (a ++ u) i).success ∧
    ¬ Protects (a ++ u) i a ∧ u <:+ (protectMeasurement (a ++ u) i).fixed := by
  intro a u i
  have hread : Reads (rawMeasurement a.getLast?) u [] := by
    unfold Reads
    decide +kernel
  refine ⟨by decide +kernel, ⟨hread, rfl⟩, by decide, by decide, by decide +kernel, ?_,
    by decide +kernel⟩
  have hmeant : meant? measureCall (a ++ u) i =
      some ⟨"use(".toList, rawCall, "a)); measureQuantum(b);".toList⟩ := by decide +kernel
  rintro ⟨m, w, hm, hcovered, -, hbefore⟩
  rw [hmeant] at hm
  obtain rfl := Option.some.inj hm
  have hw : w = [] := List.self_eq_append_left.mp hcovered
  rw [hw] at hbefore
  exact absurd hbefore (by decide)

end Fix

end Mend

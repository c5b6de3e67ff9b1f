import Mend.Proofs.Fix.Settled
import Mend.Proofs.Text.FirstMatch

/-!
# Measurements that are moved behind other operations

A line whose measurements come too early is taken apart into its statements and put together from
them in another order. What it holds between the statements, semicolons and white space, is written
anew; of the statements themselves none is lost, and each kind keeps its order.

* `isMeasurement_iff`, `occurs_earlyMeasurement_iff`: which statements measure, and which lines
  measure before they do something else.
* `Deferred`: the same statements with the measurements last.
* `deferred?_eq_some_iff`: which lines are changed, and to what.
* `exists_change_iff`: these are the lines that the changes of the fix name.
* `deferMeasurement_reorders`: **measurements are moved behind the other statements of their line,
  and nothing is lost**.
-/

namespace Mend

open Text Reader

namespace Idiom

variable {s line : Text}

/-! ## Calls as whole words -/

/-- A call stands in a text, and no word character is in front of it. -/
def CallsWord (call t : Text) : Prop := ∃ x y, t = x ++ (call ++ y) ∧ ¬ x.getLast?.any isWord

theorem occurs_measurement_iff : occurs measurement s ↔ CallsWord "measure(".toList s := by
  simp only [measurement, occurs_atWord_iff, reads_exactly]
  constructor
  · rintro ⟨x, _, y, hs, -, hword, rfl⟩
    exact ⟨x, y, hs, hword⟩
  · rintro ⟨x, y, hs, hword⟩
    exact ⟨x, _, y, hs, by decide, hword, rfl⟩

theorem occurs_quantumOperation_iff : occurs quantumOperation s ↔
    CallsWord "entangle(".toList s ∨ CallsWord "superpose(".toList s := by
  simp only [quantumOperation, occurs_atWord_iff, reads_oneOf_cons, reads_oneOf_nil, and_false,
    or_false, reads_exactly]
  constructor
  · rintro ⟨x, _, y, hs, -, hword, rfl | ⟨-, rfl⟩⟩
    · exact .inl ⟨x, y, hs, hword⟩
    · exact .inr ⟨x, y, hs, hword⟩
  · rintro (⟨x, y, hs, hword⟩ | ⟨x, y, hs, hword⟩)
    · exact ⟨x, _, y, hs, by decide, hword, .inl rfl⟩
    · exact ⟨x, _, y, hs, by decide, hword, .inr ⟨by simp [exactly], rfl⟩⟩

/-- A statement that measures, and neither entangles nor superposes. -/
def Measures (s : Text) : Prop :=
  CallsWord "measure(".toList s ∧
    ¬ CallsWord "entangle(".toList s ∧ ¬ CallsWord "superpose(".toList s

/-! ## Measurements before other operations -/

/-- On a line a measurement begins and its brackets are closed, and then another operation is
named. -/
def MeasuresEarly (line : Text) : Prop :=
  ∃ x operand between y, ∃ word ∈ ["entangle".toList, "superpose".toList],
    line = x ++ ("measure(".toList ++ (operand ++ ')' :: (between ++ (word ++ y))))

/-- One of some words is read on a line if it stands there. -/
theorem isSome_lastOnLine_iff (words : List Text) (nonempty : [] ∉ words) (hline : '\n' ∉ line) :
    (lastOnLine (.oneOf (words.map .exactly)) line).isSome ↔
      ∃ between y, ∃ word ∈ words, line = between ++ (word ++ y) := by
  have hread : ∀ t, (Reader.oneOf (words.map .exactly) t).isSome ↔ ∃ word ∈ words, word <+: t := by
    simp [isSome_oneOf, isSome_exactly]
  rw [lastOnLine, isSome_lastOnLineFrom]
  simp only [hread, Option.isSome_none, Bool.false_eq_true, false_or]
  constructor
  · rintro ⟨between, c, z, rfl, -, word, hword, y, hy⟩
    exact ⟨between, y, word, hword, by rw [hy]⟩
  · rintro ⟨between, y, word, hword, rfl⟩
    obtain ⟨c, rest, rfl⟩ := List.exists_cons_of_ne_nil (ne_of_mem_of_not_mem hword nonempty)
    refine ⟨between, c, rest ++ y, rfl, fun hn => hline ?_, _, hword, y, rfl⟩
    rw [List.cons_append, List.append_cons]
    exact List.mem_append_left (rest ++ y) hn

theorem occurs_earlyMeasurement_iff (hline : '\n' ∉ line) :
    occurs earlyMeasurement line ↔ MeasuresEarly line := by
  have hnamed : ∀ {line : Text}, '\n' ∉ line →
      ((lastOnLine (.oneOf [.exactly "entangle".toList, .exactly "superpose".toList]) line).isSome ↔
        ∃ between y, ∃ word ∈ ["entangle".toList, "superpose".toList],
          line = between ++ (word ++ y)) :=
    isSome_lastOnLine_iff ["entangle".toList, "superpose".toList] (by decide)
  simp only [occurs_iff_reads, earlyMeasurement, reads_anywhere, reads_seq_cons, reads_exactly,
    reads_through, reads_seq_nil]
  constructor
  · rintro ⟨x, _, v, rfl, -, _, _, rfl, rfl, _, _, rfl, ⟨operand, rfl, -⟩, last, _, rfl, hlast, rfl⟩
    rw [List.nil_append] at hlast
    have hrest : '\n' ∉ last ++ v := fun hn => hline (by simp_all)
    obtain ⟨between, y, word, hmem, h⟩ := (hnamed hrest).mp (Option.isSome_of_mem hlast)
    exact ⟨x, operand, between, y, word, hmem, by simp [← h]⟩
  · rintro ⟨x, operand, between, y, word, hmem, rfl⟩
    -- the brackets are closed by the first closing one
    have hclosed : ')' ∈ operand ++ [')'] := by simp
    obtain ⟨inner, rest, hsplit, hinner⟩ := List.eq_append_cons_of_mem hclosed
    have hoperand : operand ++ ')' :: (between ++ (word ++ y)) =
        inner ++ ')' :: (rest ++ (between ++ (word ++ y))) := by
      rw [List.append_cons, hsplit]
      simp
    rw [hoperand] at hline ⊢
    have hrest : '\n' ∉ rest ++ between ++ (word ++ y) := fun hn => hline (by simp_all)
    obtain ⟨n, hn⟩ := Option.isSome_iff_exists.mp
      ((hnamed hrest).mpr ⟨rest ++ between, y, word, hmem, rfl⟩)
    obtain ⟨last, v, e, -, hread⟩ := exists_reads hn
    refine ⟨x, "measure(".toList ++ (inner ++ [')'] ++ last), v, ?_, by simp, _, _, rfl, rfl, _, _,
      rfl, ⟨inner, rfl, hinner⟩, last, [], (List.append_nil _).symm, hread, rfl⟩
    rw [List.append_assoc] at e
    rw [e]
    simp

end Idiom

namespace Fix

open Idiom

variable {ss ss' : List Text} {line new t : Text} {i : Issue}

/-! ## The order of statements -/

theorem isMeasurement_iff {s : Text} : isMeasurement s ↔ Measures s := by
  rw [isMeasurement, Measures, Bool.and_eq_true, Bool.not_eq_true', ← Bool.not_eq_true,
    occurs_measurement_iff, occurs_quantumOperation_iff, not_or]

instance : DecidablePred Measures := fun _ => decidable_of_iff _ isMeasurement_iff

theorem measurementsLast_eq_append (ss : List Text) :
    measurementsLast ss = ss.filter (¬ Measures ·) ++ ss.filter (Measures ·) := by
  have hmeasures : isMeasurement = fun s => decide (Measures s) := by
    funext s
    rw [Bool.eq_iff_iff, isMeasurement_iff, decide_eq_true_iff]
  simp [measurementsLast, hmeasures]

/-- The measurements come last: behind a measurement there are measurements only. -/
def InOrder (ss : List Text) : Prop := ss.Pairwise fun s s' => Measures s → Measures s'

/-- The same statements with the measurements last: none is lost and none is added, and the
measurements as well as the others stand in the order in which they stood. -/
structure Deferred (ss ss' : List Text) : Prop where
  perm : ss'.Perm ss
  last : InOrder ss'
  measurements_eq : ss'.filter (Measures ·) = ss.filter (Measures ·)
  others_eq : ss'.filter (¬ Measures ·) = ss.filter (¬ Measures ·)

theorem deferred_measurementsLast (ss : List Text) : Deferred ss (measurementsLast ss) := by
  rw [measurementsLast_eq_append]
  constructor
  case perm =>
    refine List.perm_append_comm.trans ?_
    simpa using List.filter_append_perm (Measures ·) ss
  case last =>
    refine List.pairwise_append.mpr ⟨?_, ?_, ?_⟩
    · refine List.pairwise_of_forall_mem_list fun s hs s' _ hmeasures => ?_
      have hother : ¬ Measures s := by simpa using (List.mem_filter.mp hs).2
      exact absurd hmeasures hother
    · refine List.pairwise_of_forall_mem_list fun s _ s' hs' _ => ?_
      simpa using (List.mem_filter.mp hs').2
    · intro s _ s' hs' _
      simpa using (List.mem_filter.mp hs').2
  case measurements_eq => simp [List.filter_append, List.filter_filter]
  case others_eq => simp [List.filter_append, List.filter_filter]

theorem InOrder.measurementsLast_eq_self (h : InOrder ss) : measurementsLast ss = ss := by
  rw [measurementsLast_eq_append]
  induction ss with
  | nil => rfl
  | cons s ss ih =>
    obtain ⟨hs, hss⟩ := List.pairwise_cons.mp h
    by_cases hmeasures : Measures s
    · have hall : ∀ s' ∈ s :: ss, Measures s' :=
        List.forall_mem_cons.mpr ⟨hmeasures, fun s' hs' => hs s' hs' hmeasures⟩
      have hnone : (s :: ss).filter (¬ Measures ·) = [] :=
        List.filter_eq_nil_iff.mpr fun s' hs' => by simpa using hall s' hs'
      have hself : (s :: ss).filter (Measures ·) = s :: ss :=
        List.filter_eq_self.mpr fun s' hs' => by simpa using hall s' hs'
      rw [hnone, hself, List.nil_append]
    · rw [List.filter_cons_of_pos (by simpa using hmeasures),
        List.filter_cons_of_neg (by simpa using hmeasures), List.cons_append, ih hss]

/-! ## Lines -/

/-- A line whose measurements are to be moved. -/
structure Due (line : Text) : Prop where
  /-- A comment is left alone, and all that stands on its line. -/
  uncommented : ¬ "//".toList <:+: line
  early : MeasuresEarly line
  measures : ∃ s ∈ statements line, Measures s
  operates : ∃ s ∈ statements line, ¬ Measures s
  /-- The measurements do not come last yet, or the line is not yet written one statement behind the
  other. -/
  unsettled : ¬ (InOrder (statements line) ∧
    statementLine (indent line) (statements line) = line)

/-- A line is as it would be written if its measurements come last and it is written one statement
behind the other. -/
theorem written_eq_iff : statementLine (indent line) (measurementsLast (statements line)) = line ↔
    InOrder (statements line) ∧ statementLine (indent line) (statements line) = line := by
  constructor
  · intro h
    have hstatements : measurementsLast (statements line) = statements line := by
      rw [← (statements_written line).1, h]
    rw [hstatements] at h
    exact ⟨hstatements ▸ (deferred_measurementsLast (statements line)).last, h⟩
  · rintro ⟨hordered, h⟩
    rwa [hordered.measurementsLast_eq_self]

theorem deferred?_eq_some_iff (hline : '\n' ∉ line) : deferred? line = some new ↔
    Due line ∧ new = statementLine (indent line) (measurementsLast (statements line)) := by
  have hboth : ((statements line).any isMeasurement &&
      (statements line).any fun s => !isMeasurement s) ↔
      (∃ s ∈ statements line, Measures s) ∧ ∃ s ∈ statements line, ¬ Measures s := by
    simp only [Bool.and_eq_true, List.any_eq_true, Bool.not_eq_true', ← Bool.not_eq_true,
      isMeasurement_iff]
  have hskipped : (contains "//".toList line || !occurs earlyMeasurement line) ↔
      "//".toList <:+: line ∨ ¬ MeasuresEarly line := by
    rw [Bool.or_eq_true, contains_iff, Bool.not_eq_true', ← Bool.not_eq_true,
      occurs_earlyMeasurement_iff hline]
  constructor
  · intro h
    obtain ⟨hnew, hne⟩ := deferred?_eq_some h
    rw [deferred?] at h
    split at h
    · cases h
    · next hkept =>
      rw [hskipped, not_or, not_not] at hkept
      dsimp only at h
      split at h
      · next hfound =>
        obtain ⟨measures, operates⟩ := hboth.mp hfound
        exact ⟨⟨hkept.1, hkept.2, measures, operates, mt written_eq_iff.mpr (hnew ▸ hne)⟩, hnew⟩
      · cases h
  · rintro ⟨due, rfl⟩
    have hkept := mt hskipped.mp (not_or.mpr ⟨due.uncommented, not_not.mpr due.early⟩)
    rw [deferred?, if_neg hkept]
    dsimp only
    rw [if_pos (hboth.mpr ⟨due.measures, due.operates⟩),
      if_neg (mt written_eq_iff.mp due.unsettled)]

/-! ## Texts -/

/-- **The lines that changes name are those whose measurements are to be moved.** -/
theorem exists_change_iff {k : Nat} {old : Text} (hold : (lines t)[k]? = some old) :
    (∃ c ∈ (deferMeasurement t i).changes, c.line = k + 1) ↔ Due old := by
  have hfree : '\n' ∉ old := newline_not_mem_of_mem_lines (List.mem_of_getElem? hold)
  simp only [mem_changes_deferMeasurement_iff]
  constructor
  · rintro ⟨_, ⟨k', old', new, hold', hnew, rfl⟩, hk⟩
    obtain rfl : k' = k := by
      simp only [moved] at hk
      omega
    obtain rfl := Option.some.inj (hold'.symm.trans hold)
    exact ((deferred?_eq_some_iff hfree).mp hnew).1
  · intro due
    exact ⟨_, ⟨k, old, _, hold, (deferred?_eq_some_iff hfree).mpr ⟨due, rfl⟩, rfl⟩, rfl⟩

/-- A line that no change names stays. -/
theorem getElem?_lines_deferMeasurement {k : Nat}
    (h : ∀ c ∈ (deferMeasurement t i).changes, c.line ≠ k + 1) :
    (lines (deferMeasurement t i).fixed)[k]? = (lines t)[k]? := by
  rw [lines_deferMeasurement, List.getElem?_map]
  cases hold : (lines t)[k]? with
  | none => rfl
  | some old =>
    cases hnew : deferred? old with
    | none => rw [Option.map_some, hnew, Option.getD_none]
    | some new =>
      exact absurd rfl (h _ (mem_changes_deferMeasurement_iff.mpr ⟨k, old, new, hold, hnew, rfl⟩))

/-- **Measurements are moved behind the other statements of their line, and nothing is lost.** There
are as many lines as before, and those that no change names stay. A change names a line whose
statements are the same as before up to their order, the measurements standing last, and whose
indent is kept. The lines that are named are those on which a measurement comes too early, unless
there is a comment on them. -/
theorem deferMeasurement_reorders (t : Text) (i : Issue) :
    let f := deferMeasurement t i
    (lines f.fixed).length = (lines t).length ∧
    (∀ k : Nat, (∀ c ∈ f.changes, c.line ≠ k + 1) → (lines f.fixed)[k]? = (lines t)[k]?) ∧
    (∀ c ∈ f.changes, ∃ (k : Nat) (old new : Text), c.line = k + 1 ∧ c.before = some old ∧
      c.after = some new ∧ (lines t)[k]? = some old ∧ (lines f.fixed)[k]? = some new ∧
      Deferred (statements old) (statements new) ∧ indent new = indent old) ∧
    ∀ (k : Nat) (old : Text), (lines t)[k]? = some old →
      ((∃ c ∈ f.changes, c.line = k + 1) ↔ Due old) ∧
      ("//".toList <:+: old → (lines f.fixed)[k]? = some old) := by
  intro f
  refine ⟨?length, fun k => getElem?_lines_deferMeasurement, ?changed, fun k old hold =>
    ⟨exists_change_iff hold, ?commented⟩⟩
  case length => rw [lines_deferMeasurement, List.length_map]
  case changed =>
    intro c hc
    obtain ⟨k, old, new, hold, hnew, rfl⟩ := mem_changes_deferMeasurement_iff.mp hc
    obtain ⟨hstatements, hindent⟩ := statements_written old
    rw [← (deferred?_eq_some hnew).1] at hstatements hindent
    refine ⟨k, old, new, rfl, rfl, rfl, hold, ?_, ?_, hindent⟩
    · rw [lines_deferMeasurement, List.getElem?_map, hold, Option.map_some, hnew, Option.getD_some]
    · rw [hstatements]
      exact deferred_measurementsLast (statements old)
  case commented =>
    intro hcomment
    rw [← hold]
    exact getElem?_lines_deferMeasurement fun c hc hline =>
      ((exists_change_iff hold).mp ⟨c, hc, hline⟩).uncommented hcomment

/-- A measurement behind an indent and in front of an entanglement, with an empty statement between
them; the same on a line with a comment, which is left alone. -/
theorem deferMeasurement_reorders_sample :
    let issue : Issue := { rule := "quantum_measurement_timing", description := "" }
    let old := "  const r = measure(q);; entangle(a, b)".toList
    let new := "  entangle(a, b); const r = measure(q);".toList
    let kept := "measure(q); entangle(a) // in this order".toList
    let t := unlines [old, kept, "entangle(a); measure(q)".toList]
    let f := deferMeasurement t issue
    moved 0 old new ∈ f.changes ∧ Deferred (statements old) (statements new) ∧
      indent new = indent old ∧ (lines t)[0]? = some old ∧ Due old ∧
      (lines t)[1]? = some kept ∧ "//".toList <:+: kept ∧ (lines f.fixed)[1]? = some kept ∧
      (∀ c ∈ f.changes, c.line ≠ 3) ∧ (lines f.fixed)[2]? = (lines t)[2]? := by
  intro issue old new kept t f
  obtain ⟨-, hkept, hchanged, hnamed⟩ := deferMeasurement_reorders t issue
  have hmoved : moved 0 old new ∈ f.changes := by decide +kernel
  have hold : (lines t)[0]? = some old := by decide +kernel
  have hcommented : (lines t)[1]? = some kept := by decide +kernel
  have hcomment : "//".toList <:+: kept := contains_iff.mp (by decide +kernel)
  have hnone : ∀ c ∈ f.changes, c.line ≠ 3 := by decide +kernel
  obtain ⟨k, _, _, -, hbefore, hafter, -, -, hdeferred, hindent⟩ := hchanged _ hmoved
  obtain rfl := Option.some.inj hbefore
  obtain rfl := Option.some.inj hafter
  exact ⟨hmoved, hdeferred, hindent, hold, (hnamed 0 old hold).1.mp ⟨_, hmoved, rfl⟩, hcommented,
    hcomment, (hnamed 1 kept hcommented).2 hcomment, hnone, hkept 2 hnone⟩

end Fix

end Mend

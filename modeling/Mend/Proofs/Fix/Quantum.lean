import Mend.Proofs.Fix.Basic
import Mend.Proofs.Fix.Names
import Mend.Proofs.Fix.Place
import Mend.Proofs.Idiom

/-!
# The contract of fixes of quantum operations

A protected call and a bound entanglement clash with what they replace. Of collapses, what is left
of a repeated one is shorter, and the note on a measurement brings in asterisks that nothing takes
away, so that the two passes cannot make up for each other.

* `protectMeasurement_contract`, `bindEntanglement_contract`, `collapseSuperposition_contract`,
  `deferMeasurement_contract`.
* `fixed_deferMeasurement`, `mem_changes_deferMeasurement_iff`: what becomes of each line of a text
  whose measurements are moved, and what is recorded of it.
-/

namespace Mend.Fix

open Text

/-! ## Measurements that are protected or come last -/

/-- An awaited measurement is told from a protected one where the name of the call ends. -/
theorem clash_awaited {gap : Text} (hgap : ∀ c ∈ gap, isBlank c) :
    Clash ("await".toList ++ gap ++ "measureQuantum(".toList)
      ("await ".toList ++ protectedCall ++ ['(']) := by
  have hcall : Clash "measureQuantum(".toList (protectedCall ++ ['(']) :=
    Clash.append_left "measureQuantum".toList (.of_ne (by decide) [] "ithProtection(".toList)
  rw [List.append_assoc]
  exact Clash.append_left "await".toList (Clash.of_blanks hgap (by decide) (by decide) hcall)

theorem protectMeasurement_contract (t : Text) (i : Issue) :
    (protectMeasurement t i).Contract t := by
  rw [protectMeasurement]
  dsimp only
  split
  · exact .nothing t _
  · next k h =>
    refine .of_success rfl rfl ?_ (by split <;> simp)
    dsimp only
    split
    · have found := place?_qualifies h
      refine unlines_replaceFirst_ne (place?_lt h) (by simpa using found) (by decide) ?_
      intro b u v hread
      obtain ⟨gap, rfl, hgap⟩ | rfl := Idiom.measureCall_parts hread
      · exact clash_awaited hgap
      · exact Clash.of_ne (by decide) _ _
    · next unknown =>
      -- the import is what was not known
      intro e
      refine unknown (contains_iff.mpr ?_)
      have himport : protectedCall <:+: protectionImport := contains_iff.mp (by decide)
      exact e ▸ himport.trans (prefix_unlines _ _).isInfix

theorem deferred?_eq_some {line new : Text} (h : deferred? line = some new) :
    new = statementLine (indent line) (measurementsLast (statements line)) ∧ new ≠ line := by
  rw [deferred?] at h
  split at h
  · simp at h
  · dsimp only at h
    split at h
    · split at h
      · simp at h
      · next hne =>
        obtain rfl := Option.some.inj h
        exact ⟨rfl, hne⟩
    · simp at h

theorem mem_of_mem_statements {line s : Text} {c : Char} (h : s ∈ statements line) (hc : c ∈ s) :
    c ∈ line := by
  rw [statements, List.mem_filter, List.mem_map] at h
  obtain ⟨⟨w, hw, rfl⟩, -⟩ := h
  exact mem_of_mem_splitOn hw ((trim_isInfix w).subset hc)

/-- Only spaces and semicolons get into a line whose measurements are moved. -/
theorem mem_of_mem_deferred {line new : Text} {c : Char} (h : deferred? line = some new)
    (hc : c ∈ new) (other : c ∉ "; ".toList) : c ∈ line := by
  obtain ⟨rfl, -⟩ := deferred?_eq_some h
  rw [statementLine, List.mem_append, List.mem_append] at hc
  obtain (hc | hc) | hc := hc
  · exact (List.takeWhile_prefix isBlank).subset hc
  · obtain hc | ⟨s, hs, hc⟩ := mem_of_mem_intercalate hc
    · exact absurd hc other
    · have hs : s ∈ statements line := by
        rw [measurementsLast, List.mem_append, List.mem_filter, List.mem_filter] at hs
        exact hs.elim And.left And.left
      exact mem_of_mem_statements hs hc
  · rw [List.mem_singleton.mp hc] at other
    exact absurd (by decide) other

/-- No newline gets into a line whose measurements are moved. -/
theorem newline_not_mem_deferred {line : Text} (h : '\n' ∉ line) :
    '\n' ∉ (deferred? line).getD line := by
  cases hd : deferred? line with
  | none => exact h
  | some new => exact fun hc => h (mem_of_mem_deferred hd hc (by decide))

/-- The record of a line whose measurements were moved, given with its index. -/
def moved (k : Nat) (old new : Text) : Change where
  kind := .move
  line := k + 1
  description := "Moved measurement after quantum operations"
  before := some old
  after := some new

section Deferring

variable {t : Text} {i : Issue}

theorem changes_deferMeasurement (t : Text) (i : Issue) : (deferMeasurement t i).changes =
    (lines t).zipIdx.filterMap fun row => (deferred? row.1).map (moved row.2 row.1) := by
  have hrows : (((lines t).map fun line => (line, deferred? line)).zipIdx.filterMap fun row =>
      row.1.2.map (moved row.2 row.1.1)) =
      (lines t).zipIdx.filterMap fun row => (deferred? row.1).map (moved row.2 row.1) := by
    rw [List.zipIdx_map, List.filterMap_map]
    rfl
  rw [← hrows, deferMeasurement]
  split
  · next h => exact (List.isEmpty_iff.mp h).symm
  · rfl

/-- **The records name the lines that are changed**, with what was there and what is there now. -/
theorem mem_changes_deferMeasurement_iff {c : Change} : c ∈ (deferMeasurement t i).changes ↔
    ∃ k old new, (lines t)[k]? = some old ∧ deferred? old = some new ∧ c = moved k old new := by
  rw [changes_deferMeasurement, List.mem_filterMap]
  constructor
  · rintro ⟨⟨old, k⟩, hrow, h⟩
    obtain ⟨new, hnew, rfl⟩ := Option.map_eq_some_iff.mp h
    exact ⟨k, old, new, List.mem_zipIdx_iff_getElem?.mp hrow, hnew, rfl⟩
  · rintro ⟨k, old, new, hold, hnew, rfl⟩
    exact ⟨(old, k), List.mem_zipIdx_iff_getElem?.mpr hold, by rw [hnew]; rfl⟩

theorem deferred?_eq_none_of_changes (h : (deferMeasurement t i).changes = []) :
    ∀ line ∈ lines t, deferred? line = none := by
  intro line hline
  rw [changes_deferMeasurement, List.filterMap_eq_nil_iff] at h
  obtain ⟨k, hk⟩ := List.mem_iff_getElem?.mp hline
  exact Option.map_eq_none_iff.mp (h (line, k) (List.mem_zipIdx_iff_getElem?.mpr hk))

/-- **Every line stays where it is**, as it is or with its measurements moved. -/
theorem fixed_deferMeasurement (t : Text) (i : Issue) : (deferMeasurement t i).fixed =
    unlines ((lines t).map fun line => (deferred? line).getD line) := by
  rw [deferMeasurement]
  split
  · next h =>
    have hchanges : (deferMeasurement t i).changes = [] := by
      rw [deferMeasurement, if_pos h]
      rfl
    have hkept : ∀ line ∈ lines t, (deferred? line).getD line = line := fun line hline => by
      rw [deferred?_eq_none_of_changes hchanges line hline, Option.getD_none]
    rw [List.map_congr_left hkept, List.map_id', unlines_lines]
    rfl
  · rw [List.map_map]
    rfl

theorem lines_deferMeasurement (t : Text) (i : Issue) : lines (deferMeasurement t i).fixed =
    (lines t).map fun line => (deferred? line).getD line := by
  rw [fixed_deferMeasurement]
  refine lines_unlines (by simp [lines_ne_nil]) fun new hnew => ?_
  obtain ⟨line, hline, rfl⟩ := List.mem_map.mp hnew
  exact newline_not_mem_deferred (newline_not_mem_of_mem_lines hline)

end Deferring

theorem deferMeasurement_contract (t : Text) (i : Issue) : (deferMeasurement t i).Contract t := by
  rw [deferMeasurement]
  split
  · exact .nothing t _
  · next found =>
    have found := mt List.isEmpty_iff.mpr found
    refine .of_success rfl rfl ?_ found
    rw [List.map_map]
    refine unlines_map_ne
      (fun line hline => newline_not_mem_deferred (newline_not_mem_of_mem_lines hline)) ?_
    · obtain ⟨change, hchange⟩ := List.exists_mem_of_ne_nil _ found
      obtain ⟨row, hrow, hchange⟩ := List.mem_filterMap.mp hchange
      obtain ⟨new, hnew, -⟩ := Option.map_eq_some_iff.mp hchange
      obtain ⟨line, hline, hrow⟩ := List.mem_map.mp (List.fst_mem_of_mem_zipIdx hrow)
      rw [← hrow] at hnew
      refine ⟨line, hline, ?_⟩
      dsimp only [Function.comp_apply] at hnew ⊢
      rw [hnew]
      exact (deferred?_eq_some hnew).2

/-! ## Entanglements -/

theorem clash_bound {b : Option Char} {u v : Text} (h : Reader.Reads (Idiom.bareEntanglement b) u v)
    (name : Text) : Clash u (bound name u) := by
  obtain ⟨margin, arguments, rfl, hmargin, -⟩ := Idiom.bareEntanglement_parts h
  rw [bound, Idiom.entanglementIndent_eq hmargin]
  simp only [List.append_assoc]
  exact Clash.append_left margin (.of_ne (by decide) _ _)

theorem bindEntanglement_contract {t : Text} {i : Issue} {f : Fix}
    (h : bindEntanglement t i = .ok f) : f.Contract t := by
  obtain ⟨-, rfl⟩ | ⟨found, success, source, hfixed, hchanges⟩ := bindEntanglement_eq_ok h
  · exact .nothing t _
  · refine .of_success source success ?_ ?_
    · rw [hfixed]
      refine replaceHits_ne found fun x hx => ?_
      obtain ⟨-, b, v, hread⟩ := reads_of_mem_hits hx
      exact clash_bound hread _
    · rwa [hchanges, ne_eq, List.map_eq_nil_iff]

/-! ## Superpositions -/

/-- What is removed of repeated collapses is longer than what is left, and holds no asterisk. -/
theorem repeatedCollapse_shrinks {b : Option Char} {u v : Text}
    (h : Reader.Reads (Idiom.repeatedCollapse b) u v) :
    singleCollapse.length < u.length ∧ '*' ∉ u := by
  obtain ⟨first, second, rest, rfl, hf, hs, hr⟩ := Idiom.repeatedCollapse_parts h
  constructor
  · have hf := hf.length_lt
    have hs := hs.length_lt
    have hname : "superposition".toList.length = 13 := by decide
    have hcall : "collapse()".toList.length = 10 := by decide
    have hsingle : singleCollapse.length = 24 := by decide
    rw [hcall] at hf hs
    rw [hsingle, List.length_append, List.length_append, List.length_append, hname]
    omega
  · have hcall : ∀ {m}, Idiom.IsMember "collapse()".toList m → '*' ∉ m := fun hm =>
      hm.not_mem (by decide) (by decide)
    simp only [List.mem_append, List.mem_flatten, not_or, not_exists, not_and]
    exact ⟨by decide, hcall hf, hcall hs, fun w hw => hcall (hr w hw)⟩

theorem asterisk_not_mem_measuredCollapse {b : Option Char} {u v : Text}
    (h : Reader.Reads (Idiom.measuredCollapse b) u v) : '*' ∉ u := by
  obtain ⟨first, second, rfl, hf, hs⟩ := Idiom.measuredCollapse_parts h
  simp only [List.mem_append, not_or]
  exact ⟨by decide, hf.not_mem (by decide) (by decide), hs.not_mem (by decide) (by decide)⟩

/-- The first pass keeps the number of asterisks. -/
theorem count_repeatedCollapse (t : Text) :
    (replaceHits Idiom.repeatedCollapse (fun _ => singleCollapse) t).count '*' = t.count '*' := by
  have h : ∀ x ∈ hits Idiom.repeatedCollapse t, singleCollapse.count '*' = x.covered.count '*' := by
    intro x hx
    obtain ⟨-, b, v, hread⟩ := reads_of_mem_hits hx
    rw [List.count_eq_zero_of_not_mem (repeatedCollapse_shrinks hread).2]
    decide
  have hcount := Piece.countP_replace_eq h
  rwa [replace_covered_scan] at hcount

/-- The first pass makes the text shorter if it does anything. -/
theorem length_repeatedCollapse {t : Text} (found : hits Idiom.repeatedCollapse t ≠ []) :
    (replaceHits Idiom.repeatedCollapse (fun _ => singleCollapse) t).length < t.length := by
  have h : ∀ x ∈ hits Idiom.repeatedCollapse t,
      singleCollapse.countP (fun _ => true) < x.covered.countP fun _ => true := by
    intro x hx
    obtain ⟨-, b, v, hread⟩ := reads_of_mem_hits hx
    simp only [List.countP_true]
    exact (repeatedCollapse_shrinks hread).1
  have hlength := Piece.countP_replace_lt found h
  rw [replace_covered_scan] at hlength
  rw [replaceHits]
  simpa only [List.countP_true] using hlength

/-- The second pass adds asterisks if it does anything. -/
theorem count_measuredCollapse {t : Text} (found : hits Idiom.measuredCollapse t ≠ []) :
    t.count '*' < (replaceHits Idiom.measuredCollapse (fun _ => notedCollapse) t).count '*' := by
  have h : ∀ x ∈ hits Idiom.measuredCollapse t, x.covered.count '*' < notedCollapse.count '*' := by
    intro x hx
    obtain ⟨-, b, v, hread⟩ := reads_of_mem_hits hx
    rw [List.count_eq_zero_of_not_mem (asterisk_not_mem_measuredCollapse hread)]
    decide
  have hcount := Piece.countP_replace_lt found h
  rwa [replace_covered_scan] at hcount

theorem collapseSuperposition_contract (t : Text) (i : Issue) :
    (collapseSuperposition t i).Contract t := by
  rw [collapseSuperposition]
  split
  · exact .nothing t _
  · next found =>
    have found := mt List.isEmpty_iff.mpr found
    refine .of_success rfl rfl ?_ found
    set once := replaceHits Idiom.repeatedCollapse (fun _ => singleCollapse) t with honce
    dsimp only
    by_cases second : hits Idiom.measuredCollapse once = []
    · -- only the first pass did something, and what it left is shorter
      have first : hits Idiom.repeatedCollapse t ≠ [] := by
        intro first
        simp [uniformChanges, first, second] at found
      rw [replaceHits_of_hits_eq_nil second]
      intro e
      have hlength := length_repeatedCollapse first
      rw [← honce, e] at hlength
      exact lt_irrefl _ hlength
    · intro e
      have hcount := count_measuredCollapse second
      rw [e, honce, count_repeatedCollapse] at hcount
      exact lt_irrefl _ hcount

end Mend.Fix

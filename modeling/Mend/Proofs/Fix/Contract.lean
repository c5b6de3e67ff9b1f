import Mend.Fix.Transform
import Mend.Proofs.Fix.Control
import Mend.Proofs.Fix.Hygiene
import Mend.Proofs.Fix.Quantum

/-!
# The contract of the transforms

Most transforms succeed when they found something, so that the point of the contract is that what
they put in its place never looks like it. What it leaves open is whether there is a fix at all:
there is none where the entanglements of a text cannot be numbered on, which can be so even if the
text has none that are still to be bound.

* `transform_contract`: every fix of every transform keeps the contract, and there is a fix exactly
  where entanglements can be numbered on.
* `bindEntanglement_gives_up`: a text in which nothing is to be bound and that has no fix.
-/

namespace Mend

open Text

namespace Fix

/-! ## Where entanglements can be numbered on -/

/-- The numbers of entanglements in a text are short enough to be read, and so are the numbers of
the new ones to be written, if there are new ones. -/
def Numberable (t : Text) : Prop :=
  (∀ n ∈ entanglementDigits t, n ≤ FixError.digitLimit) ∧
    (hits Idiom.bareEntanglement t ≠ [] →
      Idiom.lastEntanglement t + hitCount Idiom.bareEntanglement t <
        Nat.pow 10 FixError.digitLimit)

theorem numberingError?_eq_none {t : Text} :
    numberingError? t (hitCount Idiom.bareEntanglement t) = none ↔ Numberable t := by
  have hcount : hitCount Idiom.bareEntanglement t ≠ 0 ↔ hits Idiom.bareEntanglement t ≠ [] :=
    not_congr List.length_eq_zero_iff
  rw [numberingError?]
  split
  · next digits h =>
    have hlong : FixError.digitLimit < digits := by simpa using List.find?_some h
    constructor
    · simp
    · intro hn
      exact absurd (hn.1 digits (List.mem_of_find?_eq_some h)) (not_le.mpr hlong)
  · next h =>
    have hshort : ∀ n ∈ entanglementDigits t, n ≤ FixError.digitLimit := by
      intro n hn
      simpa using List.find?_eq_none.mp h n hn
    rw [Numberable, ← hcount]
    generalize Nat.pow 10 FixError.digitLimit = bound
    rw [ite_eq_right_iff]
    simp only [Bool.and_eq_true, decide_eq_true_eq, reduceCtorEq, imp_false, not_and, not_le]
    exact ⟨fun hlast => ⟨hshort, hlast⟩, fun hn => hn.2⟩

theorem bindEntanglement_ok_iff {t : Text} {i : Issue} :
    (∃ f, bindEntanglement t i = .ok f) ↔ Numberable t := by
  rw [← numberingError?_eq_none, bindEntanglement]
  dsimp only
  split
  · next e he =>
    have he : numberingError? t (hitCount Idiom.bareEntanglement t) = some e := he
    simp [he]
  · next he =>
    refine ⟨fun _ => he, fun _ => ?_⟩
    split
    · exact ⟨_, rfl⟩
    · exact ⟨_, rfl⟩

end Fix

/-- **Every transform keeps the contract, and answers with a fix unless entanglements cannot be
numbered on.** -/
theorem transform_contract (k : TransformKind) (t : Text) (i : Issue) :
    ((∃ f, k.transform t i = .ok f ∧ f.Contract t) ↔
        (k = .bindEntanglement → Fix.Numberable t)) ∧
      ∀ f, k.transform t i = .ok f → f.Contract t := by
  have hkeeps : ∀ f, k.transform t i = .ok f → f.Contract t := by
    intro f h
    cases k with
    | addErrorHandling => exact Except.ok.inj h ▸ Fix.addErrorHandling_contract t i
    | removeRedundantAsync => exact Except.ok.inj h ▸ Fix.removeRedundantAsync_contract t i
    | protectMeasurement => exact Except.ok.inj h ▸ Fix.protectMeasurement_contract t i
    | bindEntanglement => exact Fix.bindEntanglement_contract (i := i) h
    | replaceConsoleLog => exact Except.ok.inj h ▸ Fix.replaceConsoleLog_contract t i
    | externalizeSecrets => exact Except.ok.inj h ▸ Fix.externalizeSecrets_contract t i
    | collapseSuperposition => exact Except.ok.inj h ▸ Fix.collapseSuperposition_contract t i
    | pruneImports => exact Except.ok.inj h ▸ Fix.pruneImports_contract t i
    | annotateComplexity => exact Except.ok.inj h ▸ Fix.annotateComplexity_contract t i
    | deferMeasurement => exact Except.ok.inj h ▸ Fix.deferMeasurement_contract t i
  refine ⟨?_, hkeeps⟩
  have hanswers : (∃ f, k.transform t i = .ok f) ↔ (k = .bindEntanglement → Fix.Numberable t) := by
    by_cases hk : k = .bindEntanglement
    · subst hk
      rw [TransformKind.transform]
      simpa using Fix.bindEntanglement_ok_iff
    · simp only [hk, false_imp_iff, iff_true]
      cases k with
      | bindEntanglement => exact absurd rfl hk
      | _ => exact ⟨_, rfl⟩
  rw [← hanswers]
  exact ⟨fun ⟨f, h, _⟩ => ⟨f, h⟩, fun ⟨f, h⟩ => ⟨f, h, hkeeps f h⟩⟩

namespace Fix

/-! ## A text that has no fix -/

variable {digits : Text}

/-- In a text that is the name of an entanglement, nothing is to be bound. -/
theorem hits_bareEntanglement_name (h : ∀ c ∈ digits, isDecimal c) :
    hits Idiom.bareEntanglement (Idiom.entanglementStem ++ digits) = [] := by
  rw [List.eq_nil_iff_forall_not_mem]
  intro x hx
  obtain ⟨-, b, v, hread⟩ := reads_of_mem_hits hx
  obtain ⟨margin, arguments, hcovered, -⟩ := Idiom.bareEntanglement_parts hread
  have hparen : '(' ∈ x.covered := by simp [hcovered]
  have hmem := mem_of_mem_covered hx hparen
  obtain hmem | hmem := List.mem_append.mp hmem
  · exact absurd hmem (by decide)
  · exact absurd (h _ hmem) (by decide)

theorem entanglementDigits_name (nonempty : digits ≠ []) (h : ∀ c ∈ digits, isDecimal c) :
    entanglementDigits (Idiom.entanglementStem ++ digits) = [digits.length] := by
  have hscan := scan_of_reads (by simp [nonempty]) (Idiom.reads_entanglementName nonempty h)
  rw [entanglementDigits, hits, hscan]
  simp

/-- The name of an entanglement with too long a number has no fix. -/
theorem bindEntanglement_name (hlong : FixError.digitLimit < digits.length)
    (h : ∀ c ∈ digits, isDecimal c) (i : Issue) :
    bindEntanglement (Idiom.entanglementStem ++ digits) i =
      .error (.tooManyDigits digits.length) := by
  have nonempty : digits ≠ [] := List.length_pos_iff.mp (Nat.zero_lt_of_lt hlong)
  rw [bindEntanglement, numberingError?, entanglementDigits_name nonempty h]
  simp [hlong]

end Fix

/-- With a number of one digit more than are read there is no fix, although nothing is to be
bound. -/
theorem bindEntanglement_gives_up :
    let t := Idiom.entanglementStem ++ List.replicate 4301 '1'
    hits Idiom.bareEntanglement t = [] ∧
      ¬ ∃ f, TransformKind.bindEntanglement.transform t { rule := "r", description := "d" } =
        .ok f ∧ f.Contract t := by
  have hdigits : ∀ c ∈ List.replicate 4301 '1', isDecimal c := by
    intro c hc
    rw [List.eq_of_mem_replicate hc]
    decide
  have hlong : FixError.digitLimit < (List.replicate 4301 '1').length := by
    rw [List.length_replicate]
    decide
  refine ⟨Fix.hits_bareEntanglement_name hdigits, ?_⟩
  rintro ⟨f, hf, -⟩
  rw [TransformKind.transform, Fix.bindEntanglement_name hlong hdigits] at hf
  cases hf

end Mend

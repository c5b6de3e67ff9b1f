import Mend.Fix.Quantum
import Mend.Proofs.Idiom

/-!
# The names that bound entanglements get

* `isWord_of_mem_entanglementName`, `entanglementName_injective`: the names are words, and no two
  are the same.
* `bindEntanglement_eq_ok`: what a fix is that binds entanglements.
* `fixed_bindEntanglement`, `changes_bindEntanglement`: what becomes of a text whose entanglements
  are bound, and what is recorded of it, also if there are none.
-/

namespace Mend.Fix

open Text Idiom

theorem entanglementName_eq (n : Nat) :
    entanglementName n = entanglementStem ++ Nat.toDigits 10 n := by
  simp [entanglementName, toString, Nat.repr]

theorem isWord_of_mem_entanglementName {n : Nat} {c : Char} (h : c ∈ entanglementName n) :
    isWord c := by
  rw [entanglementName_eq, List.mem_append] at h
  obtain h | h := h
  · exact isWord_of_mem_entanglementStem h
  · exact isWord_of_isDigit (Nat.isDigit_of_mem_toDigits (by decide) (by decide) h)

/-- Names with different numbers differ. -/
theorem entanglementName_injective : Function.Injective entanglementName := by
  intro n k h
  rw [entanglementName_eq, entanglementName_eq, List.append_cancel_left_eq] at h
  rw [← decimalValue_toDigits n, h, decimalValue_toDigits]

/-- The name that a bare entanglement of a text is bound to. -/
def givenName (t : Text) (h : Hit) : Text := entanglementName (lastEntanglement t + h.number + 1)

/-- The change that binds a bare entanglement of a text. -/
def bindingChange (t : Text) (h : Hit) : Change where
  kind := .modify
  line := h.line
  description :=
    "Bound entanglement to " ++ String.ofList (givenName t h) ++ " with release reminder"
  before := some h.covered
  after := some (bound (givenName t h) h.covered)

variable {t : Text} {i : Issue} {f : Fix}

/-- There is a fix where the transform answers with one. -/
theorem exists_bindEntanglement (h : (bindEntanglement t i).isOk) :
    ∃ f, bindEntanglement t i = .ok f := by
  cases hb : bindEntanglement t i with
  | error e => rw [hb] at h; cases h
  | ok f => exact ⟨f, rfl⟩

/-- There is nothing to bind, or every bare entanglement is bound and recorded. -/
theorem bindEntanglement_eq_ok (h : bindEntanglement t i = .ok f) :
    (hits bareEntanglement t = [] ∧ f = nothing t "No unbound entangle() statements found") ∨
      (hits bareEntanglement t ≠ [] ∧ f.success ∧ f.source = t ∧
        f.fixed = replaceHits bareEntanglement (fun x => bound (givenName t x) x.covered) t ∧
        f.changes = (hits bareEntanglement t).map (bindingChange t)) := by
  rw [bindEntanglement] at h
  dsimp only at h
  split at h
  · cases h
  · split at h
    · next hnone =>
      obtain rfl := Except.ok.inj h
      exact .inl ⟨List.isEmpty_iff.mp hnone, rfl⟩
    · next found =>
      obtain rfl := Except.ok.inj h
      exact .inr ⟨mt List.isEmpty_iff.mpr found, rfl, rfl, rfl, rfl⟩

theorem fixed_bindEntanglement (h : bindEntanglement t i = .ok f) :
    f.fixed = replaceHits bareEntanglement (fun x => bound (givenName t x) x.covered) t := by
  obtain ⟨hnone, rfl⟩ | ⟨-, -, -, hfixed, -⟩ := bindEntanglement_eq_ok h
  · exact (replaceHits_of_hits_eq_nil hnone).symm
  · exact hfixed

theorem changes_bindEntanglement (h : bindEntanglement t i = .ok f) :
    f.changes = (hits bareEntanglement t).map (bindingChange t) := by
  obtain ⟨hnone, rfl⟩ | ⟨-, -, -, -, hchanges⟩ := bindEntanglement_eq_ok h
  · rw [hnone]
    rfl
  · exact hchanges

end Mend.Fix

import Mend.Fix.Basic

/-!
# The contract of a fix

A fix of a text keeps the text it was given, and says that it succeeded exactly if it changed the
text and exactly if it recorded a change.
-/

namespace Mend.Fix

/-- What every fix of a text promises. -/
structure Contract (t : Text) (f : Fix) : Prop where
  source_eq : f.source = t
  success_iff_text : f.success ↔ f.fixed ≠ t
  success_iff_changes : f.success ↔ f.changes ≠ []
  /-- A fix that did not succeed claims nothing and warns of nothing. -/
  idle : f.success = false → f.confidence = 0.0 ∧ f.warnings = []

namespace Contract

variable {t : Text} {f : Fix}

theorem nothing (t : Text) (explanation : String) : (Fix.nothing t explanation).Contract t where
  source_eq := rfl
  success_iff_text := by simp [Fix.nothing]
  success_iff_changes := by simp [Fix.nothing]
  idle _ := ⟨rfl, rfl⟩

/-- A fix that succeeded, changed the text and recorded it keeps the contract. -/
theorem of_success (source : f.source = t) (success : f.success) (text : f.fixed ≠ t)
    (changes : f.changes ≠ []) : f.Contract t where
  source_eq := source
  success_iff_text := by simp [success, text]
  success_iff_changes := by simp [success, changes]
  idle h := by simp [success] at h

end Contract

end Mend.Fix

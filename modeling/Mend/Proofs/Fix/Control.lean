import Mend.Fix.Control
import Mend.Proofs.Fix.Basic
import Mend.Proofs.Fix.Place
import Mend.Proofs.Idiom

/-!
# The contract of fixes at one line

The lines that are put in the place of one are more, or the one line there is another.

* `addErrorHandling_contract`, `removeRedundantAsync_contract`, `annotateComplexity_contract`.
-/

namespace Mend.Fix

open Text

/-! ## Handlers, synchronous functions and advice -/

theorem newline_not_mem_handled {line : Text} (h : '\n' ∉ line) : ∀ l ∈ handled line, '\n' ∉ l := by
  have hindent := not_mem_indent h
  have htrim := not_mem_trim h
  intro l hl
  simp only [handled, List.mem_cons, List.not_mem_nil, or_false] at hl
  rcases hl with rfl | rfl | rfl | rfl | rfl | rfl <;> simp [hindent, htrim]

theorem addErrorHandling_contract (t : Text) (i : Issue) : (addErrorHandling t i).Contract t := by
  rw [addErrorHandling]
  cases h : place? (lines t) i (isUnwrapped (lines t).toArray) with
  | none => exact .nothing t _
  | some k =>
    refine .of_success rfl rfl ?_ (by simp)
    exact unlines_replaceLine_ne (place?_lt h) (by simp [handled])
      (newline_not_mem_handled (newline_not_mem_getD t k)) (by simp [handled])

theorem removeRedundantAsync_contract (t : Text) (i : Issue) :
    (removeRedundantAsync t i).Contract t := by
  rw [removeRedundantAsync]
  dsimp only
  split
  · exact .nothing t _
  · next k h =>
    refine .of_success rfl rfl ?_ (by simp)
    have found := place?_qualifies h
    refine unlines_replaceFirst_ne (place?_lt h) (by simpa using found) (by decide) ?_
    intro b u v hread
    obtain ⟨gap, rfl, -⟩ := Idiom.asyncFunction_parts hread
    exact Clash.of_ne (by decide) _ _

theorem newline_not_mem_advice {margin : Text} (h : '\n' ∉ margin) :
    ∀ l ∈ advice margin, '\n' ∉ l := by
  intro l hl
  simp only [advice, List.mem_cons, List.not_mem_nil, or_false] at hl
  rcases hl with rfl | rfl <;> simp [h]

theorem annotateComplexity_contract (t : Text) (i : Issue) :
    (annotateComplexity t i).Contract t := by
  rw [annotateComplexity]
  cases h : place? (lines t) i fun _ => true with
  | none => exact .nothing t _
  | some k =>
    have hindent := not_mem_indent (newline_not_mem_getD t k)
    refine .of_success rfl rfl ?_ (by simp)
    exact unlines_insertAbove_ne (by simp [advice]) (newline_not_mem_advice hindent)

end Mend.Fix

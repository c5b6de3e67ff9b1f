import Mend.Proofs.Engine.Session
import Mend.Proofs.Fix.Foreign
import Mend.Proofs.Registry

/-!
# Sessions bring in no foreign words

* `Registry.Builtin`: a registry of strategies that run the transforms that come with the program.
* `Course.infix_of_course`: **no attempts bring in a foreign word**.
* `run_cases`: what a session leaves of a text, whatever the detector answers.
* `infix_of_run`, `return_mem_of_run`: **a session brings in no foreign word**, and no carriage
  return.
-/

namespace Mend

/-! ## Strategies -/

namespace Registry

variable {κ : Type} {r : Registry κ}

/-- All strategies run transforms that come with the program. -/
def Builtin (r : Registry κ) : Prop :=
  ∀ {rule : String} {s : Strategy κ}, s ∈ r.forRule rule →
    ∃ k : TransformKind, s.transform = k.transform

variable [Confidence κ]

theorem builtin_standard : (standard : Registry κ).Builtin :=
  fun hs => exists_kind (built_standard.sound.mem_of_listed hs)

theorem Builtin.select (h : r.Builtin) {learned : Snapshot κ} {rule : String} {s : Strategy κ}
    (hs : r.select learned rule = some s) : ∃ k : TransformKind, s.transform = k.transform := by
  obtain ⟨y, hy, rfl⟩ := select_eq_some hs
  rw [Snapshot.adjust_transform]
  exact h hy

end Registry

/-! ## Attempts -/

section Attempts

variable {κ : Type} {choose : String → Option (Strategy κ)} {n t u : Text} {i : Issue}
  {is : List Issue} {as : List (Attempt κ)}

/-- An attempt brings in no foreign word. -/
theorem Attempt.infix_of_left (h : Foreign n) {s : Strategy κ} {k : TransformKind}
    (hs : s.transform = k.transform) (hn : n <:+: (make s t i).left) : n <:+: t := by
  rw [left_make, hs] at hn
  split at hn
  · next f hf =>
    split at hn
    · exact infix_of_transform h hf hn
    · exact hn
  · exact hn

/-- **No attempts bring in a foreign word.** -/
theorem Course.infix_of_course (h : Foreign n) (hcourse : Course choose t is as u)
    (hchoose : ∀ {rule s}, choose rule = some s → ∃ k : TransformKind, s.transform = k.transform)
    (hn : n <:+: u) : n <:+: t := by
  induction hcourse with
  | done => exact hn
  | attempt chosen _ ih =>
    obtain ⟨k, hk⟩ := hchoose chosen
    exact Attempt.infix_of_left h hk (ih hn)

end Attempts

/-! ## Sessions -/

namespace Engine

variable {κ σ : Type} [Confidence κ]

/-- **What a session leaves of a text**: the text itself, if a detection has failed, or what its
attempts have made of it. -/
theorem run_cases (e : Engine κ) (d : Detector σ) (w : Surroundings σ) (file : String) (t : Text) :
    (e.run d w file t).1.session.file = file ∧ (e.run d w file t).1.source = t ∧
      (e.run d w file t).2.1.registry = e.registry ∧
      ((e.run d w file t).1.fixed = t ∧ (e.run d w file t).1.applied = [] ∨
        ∃ now, ∃ before : Detection,
          (e.run d w file t).1.fixed = (e.attempts now (e.plan before.issues) t).buffer ∧
          (e.run d w file t).1.applied = (e.attempts now (e.plan before.issues) t).applied) := by
  unfold run
  dsimp only
  split
  · exact ⟨rfl, rfl, rfl, .inl ⟨rfl, rfl⟩⟩
  split
  · exact ⟨rfl, rfl, rfl, .inl ⟨rfl, rfl⟩⟩
  · exact ⟨rfl, rfl, rfl, .inr ⟨_, _, rfl, rfl⟩⟩

/-- **A session brings in no foreign word**, whatever the detector answers. -/
theorem infix_of_run {n : Text} (h : Foreign n) {e : Engine κ} (hbuiltin : e.registry.Builtin)
    {d : Detector σ} {w : Surroundings σ} {file : String} {t : Text}
    (hn : n <:+: (e.run d w file t).1.fixed) : n <:+: t := by
  obtain ⟨-, -, -, ⟨hfixed, -⟩ | ⟨now, before, hfixed, -⟩⟩ := e.run_cases d w file t
  · rwa [hfixed] at hn
  · rw [hfixed] at hn
    exact (e.sessionCourse_spec now before t).1.infix_of_course h hbuiltin.select hn

/-- A session brings in no carriage return. -/
theorem return_mem_of_run {e : Engine κ} (h : e.registry.Builtin) {d : Detector σ}
    {w : Surroundings σ} {file : String} {t : Text} (hc : '\r' ∈ (e.run d w file t).1.fixed) :
    '\r' ∈ t :=
  (List.singleton_infix_iff _ _).mp
    (infix_of_run foreign_return h ((List.singleton_infix_iff _ _).mpr hc))

end Engine

end Mend

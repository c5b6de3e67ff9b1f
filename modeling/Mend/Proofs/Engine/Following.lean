import Mend.Proofs.Engine.Foreign
import Mend.Proofs.Fix.Following

/-!
# Lines that sessions leave alone

A session is followed by the fixes that it has applied, one after the other.

* `SessionResult.follow`: where a line comes to stand by a session, unless a fix changes it.
* `run_keeps`: **a session keeps the lines that no applied fix changes**.
-/

namespace Mend

/-- The index at which the line at index `k` of the source comes to stand by a session, if no fix
that was applied changes it. -/
def SessionResult.follow (r : SessionResult) (k : Nat) : Option Nat :=
  r.applied.foldlM (fun k f => f.follow k) k

/-! ## Strategies -/

/-- A strategy runs a transform that comes with the program, and it bears the name of the one that
makes its changes in two rounds only if it is that one. -/
def Strategy.Labelled {κ : Type} (s : Strategy κ) : Prop :=
  ∃ k : TransformKind, s.transform = k.transform ∧
    (s.id = Fix.twofold ↔ k = .collapseSuperposition)

theorem Strategy.labelled_builtin {κ : Type} {id : String} {kind : TransformKind}
    (h : id = Fix.twofold ↔ kind = .collapseSuperposition) {name : String} {rules : List String}
    {confidence : κ} {complexity : Complexity} {description : String} :
    (builtin id kind name rules confidence complexity description).Labelled := ⟨kind, rfl, h⟩

namespace Registry

variable {κ : Type} {r : Registry κ}

/-- All strategies run transforms that come with the program, under their names. -/
def Labelled (r : Registry κ) : Prop :=
  ∀ {rule : String} {s : Strategy κ}, s ∈ r.forRule rule → s.Labelled

theorem Labelled.builtin (h : r.Labelled) : r.Builtin := by
  intro rule s hs
  exact (h hs).imp fun _ hk => hk.1

variable [Confidence κ]

theorem labelled_standard : (standard : Registry κ).Labelled := by
  have hall : ∀ s ∈ (Strategy.catalog : List (Strategy κ)), s.Labelled := by
    simp only [Strategy.catalog, List.forall_mem_cons]
    refine ⟨?_, ?_, ?_, ?_, ?_, ?_, ?_, ?_, ?_, ?_, by simp⟩ <;>
      exact Strategy.labelled_builtin (by decide)
  intro rule s hs
  exact hall s (mem_catalog (built_standard.sound.mem_of_listed hs))

theorem Labelled.select (h : r.Labelled) {learned : Snapshot κ} {rule : String} {s : Strategy κ}
    (hs : r.select learned rule = some s) : s.Labelled := by
  obtain ⟨y, hy, rfl⟩ := select_eq_some hs
  unfold Strategy.Labelled
  rw [Snapshot.adjust_transform, Snapshot.adjust_id]
  exact h hy

end Registry

/-! ## Attempts -/

section Attempts

variable {κ : Type} {choose : String → Option (Strategy κ)} {t u : Text} {i : Issue}
  {is : List Issue} {as : List (Attempt κ)}

/-- What an attempt leaves keeps the lines that its fix does not change. -/
theorem Attempt.keeps_make {s : Strategy κ} (h : s.Labelled) (t : Text) (i : Issue) :
    KeepsLines (fun k => (make s t i).success?.toList.foldlM (fun k f => f.follow k) k) t
      (make s t i).left := by
  obtain ⟨k, hs, hid⟩ := h
  cases hf : k.transform t i with
  | error e =>
    have hnone : (make s t i).success? = none := by
      simp [success?, fix?, make, Strategy.apply, hs, hf, Except.toOption]
    rw [left, hnone]
    exact .refl t
  | ok f =>
    cases hsuccess : f.success with
    | false =>
      have hnone : (make s t i).success? = none := by
        simp [success?, fix?, make, Strategy.apply, hs, hf, Except.toOption, hsuccess]
      rw [left, hnone]
      exact .refl t
    | true =>
      have hsome : (make s t i).success? = some { f with strategy := s.id, rule := i.rule } := by
        simp [success?, fix?, make, Strategy.apply, hs, hf, Except.toOption, hsuccess]
      rw [left, hsome]
      simp only [Option.toList_some, List.foldlM_cons, List.foldlM_nil, bind_pure]
      exact keeps_follow hf hid

theorem Course.keeps (h : Course choose t is as u)
    (hchoose : ∀ {rule s}, choose rule = some s → s.Labelled) :
    KeepsLines (fun k => (as.filterMap Attempt.success?).foldlM (fun k f => f.follow k) k) t u := by
  induction h with
  | done => exact .refl _
  | @attempt t u i s is as chosen _ ih =>
    have hstep := (Attempt.keeps_make (hchoose chosen) t i).trans ih
    have hsplit : (Attempt.make s t i :: as).filterMap Attempt.success? =
        (Attempt.make s t i).success?.toList ++ as.filterMap Attempt.success? := by
      cases h : (Attempt.make s t i).success? <;> simp [h]
    simp only [hsplit, List.foldlM_append]
    exact hstep

end Attempts

/-! ## Sessions -/

namespace Engine

variable {κ σ : Type} [Confidence κ]

/-- **A session keeps the lines that no applied fix changes.** -/
theorem run_keeps {e : Engine κ} (h : e.registry.Labelled) (d : Detector σ) (w : Surroundings σ)
    (file : String) (t : Text) :
    KeepsLines (e.run d w file t).1.follow t (e.run d w file t).1.fixed := by
  unfold SessionResult.follow
  obtain ⟨-, -, -, ⟨hfixed, happlied⟩ | ⟨now, before, hfixed, happlied⟩⟩ := e.run_cases d w file t
  · rw [hfixed, happlied]
    exact .refl t
  · rw [hfixed, happlied]
    have hcourse := (e.sessionCourse_spec now before t).1.keeps h.select
    rw [e.attempts_eq] at hcourse ⊢
    exact hcourse

end Engine

end Mend

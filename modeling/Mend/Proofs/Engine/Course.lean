import Mend.Engine.Basic
import Mend.Proofs.Selection

/-!
# The course of a session

The attempts of a session as a list, and the progress of a session told by that list.

* `Course`: the reference. Issues are attempted in turn, each with the strategy chosen for its rule
  and on the text that the attempts before have left.
* `course_spec`: a session that can choose a strategy for every issue takes exactly that course,
  whatever it learns on the way, and every count, the text, the experience and the history follow
  from the attempts.
* `select_of_mem_attempted`: a session can choose a strategy for every issue that it attempts.
-/

namespace Mend

/-! ## Attempts -/

/-- One attempt: the issue, the strategy selected for it, the text it was made on, and what the
strategy answered. -/
structure Attempt (κ : Type) where
  issue : Issue
  strategy : Strategy κ
  found : Text
  answer : Except StrategyFailure Fix

namespace Attempt

variable {κ : Type}

/-- An attempt to repair an issue in a text with a strategy. -/
def make (s : Strategy κ) (t : Text) (i : Issue) : Attempt κ := ⟨i, s, t, s.apply t i⟩

/-- The fix that was returned, if the strategy did not give up. -/
def fix? (a : Attempt κ) : Option Fix := a.answer.toOption

/-- The fix that was returned, if it is a successful one. -/
def success? (a : Attempt κ) : Option Fix := a.fix?.filter (·.success)

/-- Whether the attempt succeeded. -/
def succeeded (a : Attempt κ) : Bool := a.success?.isSome

/-- The text that the attempt leaves: the fixed one after a success, else the one it found. -/
def left (a : Attempt κ) : Text := (a.success?.map (·.fixed)).getD a.found

/-- An attempt leaves what a successful fix has made of the text, or else the text. -/
theorem left_make (s : Strategy κ) (t : Text) (i : Issue) :
    (make s t i).left =
      match s.transform t i with
      | .ok f => if f.success then f.fixed else t
      | .error _ => t := by
  cases h : s.transform t i with
  | error e => simp [left, success?, fix?, make, Strategy.apply, h, Except.toOption]
  | ok f =>
    cases hsuccess : f.success <;>
      simp [left, success?, fix?, make, Strategy.apply, h, Except.toOption, hsuccess,
        Option.filter_some]

end Attempt

/-- **The reference course.** The issues are attempted in turn, each with the strategy that `choose`
has for its rule, on the text that the attempts before it have left. -/
inductive Course {κ : Type} (choose : String → Option (Strategy κ)) :
    Text → List Issue → List (Attempt κ) → Text → Prop
  | done (t : Text) : Course choose t [] [] t
  | attempt {t u : Text} {i : Issue} {s : Strategy κ} {is : List Issue} {as : List (Attempt κ)}
      (chosen : choose i.rule = some s)
      (rest : Course choose (Attempt.make s t i).left is as u) :
      Course choose t (i :: is) (Attempt.make s t i :: as) u

namespace Course

variable {κ : Type} {choose : String → Option (Strategy κ)} {t u v : Text} {is : List Issue}
  {as bs : List (Attempt κ)}

/-- Every issue is attempted once, in order. -/
theorem map_issue (h : Course choose t is as u) : as.map (·.issue) = is := by
  induction h with
  | done => rfl
  | attempt chosen rest ih => rw [List.map_cons, ih]; rfl

/-- Every attempt is one with the strategy chosen for the rule of its issue. -/
theorem chosen_of_mem (h : Course choose t is as u) {a : Attempt κ} (ha : a ∈ as) :
    choose a.issue.rule = some a.strategy := by
  induction h with
  | done => exact absurd ha List.not_mem_nil
  | attempt chosen rest ih =>
    rcases List.mem_cons.mp ha with rfl | ha
    · exact chosen
    · exact ih ha

/-- There is only one course. -/
theorem unique (h : Course choose t is as u) (h' : Course choose t is bs v) : as = bs ∧ u = v := by
  induction h generalizing bs with
  | done => cases h'; exact ⟨rfl, rfl⟩
  | attempt chosen rest ih =>
    cases h' with
    | attempt chosen' rest' =>
      obtain rfl := Option.some.inj (chosen.symm.trans chosen')
      obtain ⟨rfl, rfl⟩ := ih rest'
      exact ⟨rfl, rfl⟩

end Course

/-- Every attempt either succeeds or fails. -/
theorem Attempt.length_eq {κ : Type} (as : List (Attempt κ)) :
    as.length = (as.filterMap success?).length + as.countP fun a => !a.succeeded := by
  induction as with
  | nil => rfl
  | cons a as ih =>
    cases h : a.success? with
    | none => simp [succeeded, h, ih]; omega
    | some fix => simp [succeeded, h, ih]; omega

/-! ## The progress of a session, told by its attempts -/

namespace Engine

variable {κ : Type} [Confidence κ]

/-- The experience after an attempt: a strategy that gave up counts as one that failed. -/
def teach (e : Engine κ) (now : Instant) (x : Experience κ) (a : Attempt κ) : Experience κ :=
  e.learn x a.strategy a.issue.rule a.succeeded now

/-- The history after an attempt: a strategy that gave up leaves no trace in it. -/
def chronicle (history : List (String × List Fix)) (a : Attempt κ) : List (String × List Fix) :=
  match a.fix? with
  | none => history
  | some fix => remember a.strategy.id fix history

/-- The progress after one more attempt. -/
def advance (e : Engine κ) (now : Instant) (p : Progress κ) (a : Attempt κ) : Progress κ where
  buffer := a.left
  applied := p.applied ++ a.success?.toList
  total := p.total + 1
  successful := p.successful + a.success?.toList.length
  failed := p.failed + (if a.succeeded then 0 else 1)
  experience := e.teach now p.experience a
  history := chronicle p.history a

variable {e : Engine κ} {learned : Snapshot κ} {now : Instant}

/-- **One step of a session is one attempt**, if there is a strategy for the issue. -/
theorem attempt_eq_advance {p : Progress κ} {i : Issue} {s : Strategy κ}
    (h : e.registry.select learned i.rule = some s) :
    e.attempt learned now p i = e.advance now p (.make s p.buffer i) := by
  unfold attempt advance teach chronicle Attempt.succeeded Attempt.left Attempt.success?
    Attempt.fix? Attempt.make
  rw [h]
  dsimp only
  cases hs : s.apply p.buffer i with
  | error f => simp [Except.toOption]
  | ok fix =>
    cases hf : fix.success <;> simp [Except.toOption, Option.filter_some, hf]

/-- The attempts that a session makes on some issues, from some progress on. An issue without a
strategy is passed over. -/
def course (e : Engine κ) (learned : Snapshot κ) (now : Instant) :
    Progress κ → List Issue → List (Attempt κ)
  | _, [] => []
  | p, i :: is =>
    ((e.registry.select learned i.rule).map fun s => Attempt.make s p.buffer i).toList
      ++ e.course learned now (e.attempt learned now p i) is

/-- **A session takes the reference course.** What it learns on the way changes no choice, since
the snapshot is that of its start. -/
theorem course_spec {is : List Issue} :
    ∀ {p : Progress κ}, (∀ i ∈ is, ∃ s, e.registry.select learned i.rule = some s) →
      Course (e.registry.select learned) p.buffer is (e.course learned now p is)
        (is.foldl (e.attempt learned now) p).buffer ∧
      is.foldl (e.attempt learned now) p = (e.course learned now p is).foldl (e.advance now) p := by
  induction is with
  | nil => exact fun _ => ⟨.done _, rfl⟩
  | cons i is ih =>
    intro p h
    obtain ⟨s, hs⟩ := h i List.mem_cons_self
    have hstep : e.attempt learned now p i = e.advance now p (.make s p.buffer i) :=
      attempt_eq_advance hs
    obtain ⟨hcourse, hfold⟩ :=
      ih (p := e.attempt learned now p i) fun j hj => h j (List.mem_cons_of_mem i hj)
    have hcalls : e.course learned now p (i :: is) =
        .make s p.buffer i :: e.course learned now (e.attempt learned now p i) is := by
      rw [course, hs]
      rfl
    rw [hcalls, List.foldl_cons, List.foldl_cons, ← hstep]
    refine ⟨.attempt hs ?_, hfold⟩
    have hleft : (e.attempt learned now p i).buffer = (Attempt.make s p.buffer i).left := by
      rw [hstep]
      rfl
    rw [← hleft]
    exact hcourse

/-- **Progress is a sum over the attempts**, field by field. -/
theorem foldl_advance (as : List (Attempt κ)) :
    ∀ p : Progress κ, as.foldl (e.advance now) p =
      { buffer := as.foldl (fun _ a => a.left) p.buffer
        applied := p.applied ++ as.filterMap Attempt.success?
        total := p.total + as.length
        successful := p.successful + (as.filterMap Attempt.success?).length
        failed := p.failed + as.countP fun a => !a.succeeded
        experience := as.foldl (e.teach now) p.experience
        history := as.foldl chronicle p.history } := by
  induction as with
  | nil => intro p; simp
  | cons a as ih =>
    intro p
    rw [List.foldl_cons, ih]
    unfold advance
    cases h : a.success? with
    | none => simp [Attempt.succeeded, h]; omega
    | some fix => simp [Attempt.succeeded, h]; omega

/-! ## The issues that are attempted -/

/-- **An attempted issue has a strategy that passed the gate**: a safe one that is not complex, or,
with the safety mode off, one that may be risky. -/
theorem select_of_mem_attempted {issues : List Issue} {i : Issue}
    (h : i ∈ e.attempted (e.plan issues)) :
    ∃ s, e.registry.select e.experience.snapshot i.rule = some s ∧
      ((e.thresholds.safe ≤ s.confidence ∧ s.complexity ≠ .complex) ∨
        (e.safetyMode = false ∧ e.thresholds.risky ≤ s.confidence)) := by
  unfold attempted plan at h
  rcases List.mem_append.mp h with hsafe | hrisky
  · obtain ⟨s, hs, hgate⟩ :=
      Thresholds.bucket_eq_safe_iff.mp (Plan.mem_make_safe_iff.mp hsafe).2
    exact ⟨s, hs, Or.inl hgate⟩
  · cases hm : e.safetyMode with
    | true =>
      rw [hm, if_pos rfl] at hrisky
      exact absurd hrisky List.not_mem_nil
    | false =>
      rw [hm, if_neg Bool.false_ne_true] at hrisky
      obtain ⟨s, hs, -, hconf⟩ :=
        Thresholds.bucket_eq_risky_iff.mp (Plan.mem_make_risky_iff.mp hrisky).2
      exact ⟨s, hs, Or.inr ⟨rfl, hconf⟩⟩

end Engine

end Mend

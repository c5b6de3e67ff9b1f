import Mend.Proofs.Engine.Foreign
import Mend.Proofs.Rule

/-!
# Sessions remove output to the console

The detector reports output to the console, the plan takes the report for a safe one as long as
experience does not speak against the repair, and the attempt leaves no call. Attempts before and
after it may change the text, but they bring in none.

* `exists_issue`: output to the console is detected.
* `exists_consoleStrategy`: there is one strategy against it.
* `Course.not_infix_of_course`: attempts leave no call if one of them is against calls.
* `console_removed`: **a session with the strategies and thresholds that come with the program
  leaves no output to the console**.
-/

namespace Mend

open Text Idiom

/-! ## Detection -/

/-- **Output to the console is detected.** -/
theorem Detection.exists_issue {t : Text} (h : consoleCall <:+: t) :
    ∃ i ∈ (ofText {} t).issues, i.rule = "console_log_in_production" := by
  have hreports : Rule.consoleLogging.Reports t := by
    rw [Rule.reports_iff rfl, Rule.firstHit_ne_nil_iff]
    exact hits_consoleLog_iff.mpr h
  obtain ⟨i, hi⟩ := List.exists_mem_of_ne_nil _ hreports
  refine ⟨i, ?_, Rule.rule_of_mem_reported hi⟩
  have hactive : Rule.consoleLogging ∈ Rule.active {} := by
    rw [Rule.active, List.mem_filter]
    exact ⟨by simp [Rule.catalog], rfl⟩
  exact (List.mergeSort_perm _ _).mem_iff.mpr (List.mem_flatMap.mpr ⟨_, hactive, hi⟩)

/-! ## Selection -/

/-- There is one strategy against output to the console. -/
theorem Registry.exists_consoleStrategy : ∃ s : Strategy Float,
    (standard.forRule "console_log_in_production" = [s] ∧
      standard.get? "replace_console_log" = some s) ∧
    s.complexity = .simple ∧ s.transform = TransformKind.replaceConsoleLog.transform := by
  have hids : ((standard : Registry Float).forRule "console_log_in_production").map (·.id) =
      ["replace_console_log"] := by decide +kernel
  obtain ⟨s, hs, hid⟩ := List.map_eq_singleton_iff.mp hids
  have hsound : (standard : Registry Float).Sound := built_standard.sound
  have hmem : s ∈ (standard : Registry Float).strategies :=
    hsound.mem_of_listed (hs ▸ List.mem_singleton_self s)
  have hcatalog : ∀ s ∈ (Strategy.catalog : List (Strategy Float)), s.id = "replace_console_log" →
      s.complexity = .simple ∧ s.transform = TransformKind.replaceConsoleLog.transform := by
    simp [Strategy.catalog, Strategy.builtin]
  exact ⟨s, ⟨hs, hid ▸ hsound.get?_id hmem⟩, hcatalog s (mem_catalog hmem) hid⟩

/-! ## Attempts -/

section Attempts

variable {κ : Type} {choose : String → Option (Strategy κ)} {t u : Text} {i : Issue}
  {is : List Issue} {as : List (Attempt κ)}

/-- An attempt against calls leaves none. -/
theorem Attempt.not_infix_left {s : Strategy κ}
    (hs : s.transform = TransformKind.replaceConsoleLog.transform) :
    ¬ consoleCall <:+: (make s t i).left := by
  rw [left_make, hs]
  show ¬ consoleCall <:+:
    if (Fix.replaceConsoleLog t i).success then (Fix.replaceConsoleLog t i).fixed else t
  split
  · next hsuccess => exact Fix.not_infix_replaceConsoleLog hsuccess
  · next hsuccess => exact mt success_replaceConsoleLog_iff.mpr hsuccess

/-- **Attempts leave no call if one of them is against calls**, whenever it comes. -/
theorem Course.not_infix_of_course (h : Course choose t is as u)
    (hchoose : ∀ {rule s}, choose rule = some s → ∃ k : TransformKind, s.transform = k.transform)
    (hi : i ∈ is) {s : Strategy κ} (hs : choose i.rule = some s)
    (htransform : s.transform = TransformKind.replaceConsoleLog.transform) :
    ¬ consoleCall <:+: u := by
  induction h with
  | done => cases hi
  | attempt chosen rest ih =>
    obtain rfl | hi := List.mem_cons.mp hi
    · obtain rfl := Option.some.inj (chosen.symm.trans hs)
      exact fun hn => Attempt.not_infix_left htransform
        (rest.infix_of_course foreign_consoleCall hchoose hn)
    · exact ih hi

end Attempts

/-! ## Sessions -/

namespace Engine

/-- The detector that comes with the program never fails, so a session ends with the text that its
attempts have left. -/
theorem exists_fixed_run {κ : Type} [Confidence κ] (e : Engine κ) (s : DetectorSettings)
    (w : Surroundings Unit) (file : String) (t : Text) :
    ∃ now, (e.run (.patterns s) w file t).1.fixed =
      (e.attempts now (e.plan (Detection.ofText s t).issues) t).buffer := by
  obtain ⟨w₁, first⟩ : ∃ w₁, w.countSession.observe (.patterns s) file t =
      (.ok (Detection.ofText s t), w₁) := ⟨_, rfl⟩
  obtain ⟨_, hrun⟩ := e.run_of_second_ok first rfl
  exact ⟨w₁.now, by rw [hrun]; rfl⟩

/-- **A session leaves no output to the console**: with the strategies and the thresholds that come
with the program, and with an experience in which the confidence of the strategy against output to
the console is a safe one, whatever else is known and whether or not the safety mode is on. It rests
on the transforms, of which none brings in a call that the text did not have. -/
theorem console_removed {e : Engine Float} (registry : e.registry = .standard)
    (thresholds : e.thresholds = .standard) {s : Strategy Float}
    (hs : e.registry.get? "replace_console_log" = some s)
    (confident : e.thresholds.safe ≤
      e.experience.snapshot.confidence s "console_log_in_production")
    (w : Surroundings Unit) (file : String) (t : Text) :
    ¬ consoleCall <:+: (e.run (.patterns {}) w file t).1.fixed ∧
      ∀ (k : TransformKind) (t : Text) (i : Issue) (f : Fix), k.transform t i = .ok f →
        ¬ consoleCall <:+: t → ¬ consoleCall <:+: f.fixed := by
  refine ⟨?_, fun k t i f h => mt (infix_of_transform foreign_consoleCall h)⟩
  obtain ⟨x, ⟨honly, hget⟩, hsimple, htransform⟩ := Registry.exists_consoleStrategy
  rw [← registry] at honly hget
  obtain rfl := Option.some.inj (hs.symm.trans hget)
  set learned := e.experience.snapshot
  have hconfident : e.thresholds.safe ≤
      (learned.adjust "console_log_in_production" s).confidence :=
    (Snapshot.le_adjust_confidence_iff learned _ s _).mpr confident
  have hselect : e.registry.select learned "console_log_in_production" =
      some (learned.adjust "console_log_in_production" s) := by
    refine select_of_singleton honly ?_
    rw [Strategy.score, Snapshot.adjust_complexity, hsimple]
    exact Double.neg_one_lt_mul_one (by rwa [thresholds] at hconfident)
  have hbuiltin : e.registry.Builtin := by
    rw [registry]
    exact Registry.builtin_standard
  obtain ⟨now, hfixed⟩ := e.exists_fixed_run {} w file t
  rw [hfixed]
  have hcourse := (e.sessionCourse_spec now (Detection.ofText {} t) t).1
  by_cases hcall : consoleCall <:+: t
  · obtain ⟨i, hi, hrule⟩ := Detection.exists_issue hcall
    rw [← hrule] at hselect hconfident
    have hsafe : i ∈ (e.plan (Detection.ofText {} t).issues).safe := by
      refine Plan.mem_make_safe_iff.mpr ⟨hi, Thresholds.bucket_eq_safe_iff.mpr ⟨_, hselect, ?_⟩⟩
      refine ⟨hconfident, ?_⟩
      rw [Snapshot.adjust_complexity, hsimple]
      decide
    refine hcourse.not_infix_of_course hbuiltin.select (List.mem_append_left _ hsafe) hselect ?_
    rw [Snapshot.adjust_transform, htransform]
  · exact mt (hcourse.infix_of_course foreign_consoleCall hbuiltin.select) hcall

/-- The safety mode is off, one success is known, and the text holds a secret as well. -/
theorem console_removed_sample :
    let e : Engine Float := {
      registry := .standard
      thresholds := .standard
      safetyMode := false
      experience :=
        Experience.empty.add "replace_console_log" "console_log_in_production" true 0.95 ⟨0⟩ }
    let t := "key = 'abcdefghijklmnopqrstuvwxyz'\nconsole.log(key)".toList
    consoleCall <:+: t ∧
      ¬ consoleCall <:+: (e.run (.patterns {}) { now := ⟨0⟩, memory := () } "a.ts" t).1.fixed := by
  intro e t
  obtain ⟨s, ⟨-, hget⟩, -⟩ := Registry.exists_consoleStrategy
  have hid : s.id = "replace_console_log" := by simpa using List.find?_some hget
  have hlearned : e.experience.snapshot.get? "replace_console_log" "console_log_in_production" =
      some ((0.95 + 1.0) / 2.0) := rfl
  have hconfident : e.thresholds.safe ≤
      e.experience.snapshot.confidence s "console_log_in_production" := by
    rw [Snapshot.confidence, hid, hlearned, Option.getD_some]
    decide +kernel
  exact ⟨by decide, (console_removed rfl rfl hget hconfident _ _ _).1⟩

end Engine

end Mend

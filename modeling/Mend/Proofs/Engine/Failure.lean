import Mend.Proofs.Engine.Journal

/-!
# What a failure comes to

A failure takes the confidence of a strategy in a rule to 1/2 or less, which is below the usual
thresholds. From then on the strategy is not attempted on that rule, so it has no chance to do
better. Confidences are taken as exact rational numbers here.

* `Experience.Bounded.record`: all confidences stay between 0 and 1.
* `confidence_of_last_failed`: after a failure the confidence is 1/2 or less.
* `steps_of_barred`: a strategy whose confidence in a rule reaches no threshold is never attempted
  on it again, and its record stays as it is.
* `failure_bars`: one failure is enough for that.
-/

namespace Mend

/-! ## Confidences between 0 and 1 -/

/-- All confidences lie between 0 and 1. -/
def Experience.Bounded (x : Experience Rat) : Prop :=
  ∀ strategy rule r, x.get? strategy rule = some r → 0 ≤ r.confidence ∧ r.confidence ≤ 1

namespace Experience.Bounded

variable {r : Registry Rat} {x : Experience Rat}

theorem empty : (Experience.empty : Experience Rat).Bounded := by
  intro strategy rule r h
  cases h

/-- The confidence that the next outcome is blended with. -/
theorem old (hx : x.Bounded) {base : Rat} (hbase : 0 ≤ base ∧ base ≤ 1) (strategy rule : String) :
    0 ≤ ((x.get? strategy rule).map (·.confidence)).getD base ∧
      ((x.get? strategy rule).map (·.confidence)).getD base ≤ 1 := by
  cases h : x.get? strategy rule with
  | none => exact hbase
  | some r => exact hx strategy rule r h

theorem add (hx : x.Bounded) {base : Rat} (hbase : 0 ≤ base ∧ base ≤ 1) (strategy rule : String)
    (success : Bool) (now : Instant) : (x.add strategy rule success base now).Bounded := by
  intro strategy' rule' r h
  rw [get?_add] at h
  split at h
  · obtain rfl := Option.some.inj h
    rw [confidence_next]
    exact Record.blend_bounded (hx.old hbase strategy rule) success
  · exact hx strategy' rule' r h

end Experience.Bounded

/-- A registered strategy has a confidence between 0 and 1. -/
theorem Registry.Sound.bounded {r : Registry Rat} (hr : r.Sound) {id : String} {s : Strategy Rat}
    (hs : r.get? id = some s) : 0 ≤ s.confidence ∧ s.confidence ≤ 1 := by
  obtain ⟨hlow, hhigh⟩ := hr.range (List.mem_of_find?_eq_some hs)
  norm_num at hlow hhigh
  exact ⟨hlow, hhigh⟩

/-- An entry keeps all confidences between 0 and 1. -/
theorem Experience.Bounded.record {r : Registry Rat} (hr : r.Sound) {x : Experience Rat}
    (hx : x.Bounded) (n : Engine.Entry Rat) : (r.record x n).Bounded := by
  unfold Registry.record
  split
  · exact hx
  · next s hs => exact hx.add (hr.bounded hs) s.id n.attempt.issue.rule n.attempt.succeeded n.now

theorem Experience.Bounded.foldl_record {r : Registry Rat} (hr : r.Sound)
    (ns : List (Engine.Entry Rat)) {x : Experience Rat} (hx : x.Bounded) :
    (ns.foldl r.record x).Bounded :=
  List.foldlRecOn ns r.record hx fun _ hy n _ => hy.record hr n

/-! ## After a failure -/

/-- An entry with a failure leaves a record with a confidence of 1/2 or less. -/
theorem Registry.Sound.get?_record_of_failed {r : Registry Rat} (hr : r.Sound) {x : Experience Rat}
    (hx : x.Bounded) {n : Engine.Entry Rat} (hn : n.attempt.succeeded = false) {s : Strategy Rat}
    (hs : r.get? n.attempt.strategy.id = some s) :
    ∃ rec, (r.record x n).get? n.attempt.strategy.id n.attempt.issue.rule = some rec ∧
      rec.confidence ≤ 1 / 2 := by
  have hid : s.id = n.attempt.strategy.id := by simpa using List.find?_some hs
  have hrecord : r.record x n =
      x.add s.id n.attempt.issue.rule false s.confidence n.now := by
    unfold record
    simp only [hs, hn]
  refine ⟨_, by rw [hrecord, Experience.get?_add, hid, if_pos rfl], ?_⟩
  rw [Experience.confidence_next]
  exact Record.blend_false_le (hx.old (hr.bounded hs) _ _).2

namespace Engine

variable {κ : Type} [Confidence κ]

/-- The outcomes that were recorded of a strategy on a rule. -/
def outcomes (e : Engine κ) (moves : List Move) (s rule : String) : List Bool :=
  ((e.recorded moves).filter (·.attempt.key = (s, rule))).map (·.attempt.succeeded)

/-- The entry of the last outcome: behind it, nothing was recorded of the strategy on the rule. -/
theorem exists_of_getLast?_outcomes {e : Engine κ} {moves : List Move} {s rule : String}
    {success : Bool} (h : (e.outcomes moves s rule).getLast? = some success) :
    ∃ before n after, e.recorded moves = before ++ n :: after ∧
      n.attempt.key = (s, rule) ∧ n.attempt.succeeded = success ∧
      ∀ n' ∈ after, n'.attempt.key ≠ (s, rule) := by
  rw [outcomes, List.getLast?_map, List.getLast?_filter] at h
  obtain ⟨n, hn, hsuccess⟩ := Option.map_eq_some_iff.mp h
  obtain ⟨hpair, after, before, hsplit, hafter⟩ := List.find?_eq_some_iff_append.mp hn
  refine ⟨before.reverse, n, after.reverse, ?_, of_decide_eq_true hpair, hsuccess, ?_⟩
  · rw [List.reverse_eq_iff] at hsplit
    simpa using hsplit
  · intro n' hn'
    have hother := hafter n' (List.mem_reverse.mp hn')
    rwa [Bool.not_eq_true', decide_eq_false_iff_not] at hother

/-- An entry changes no record but that of its strategy and its rule. -/
theorem get?_record_of_ne {r : Registry κ} {x : Experience κ} {n : Entry κ} {s rule : String}
    (h : n.attempt.key ≠ (s, rule)) : (r.record x n).get? s rule = x.get? s rule := by
  unfold Registry.record
  split
  · rfl
  · next s' hs' =>
    have hid : s'.id = n.attempt.strategy.id := by simpa using List.find?_some hs'
    rw [Experience.get?_add, hid]
    exact if_neg h

theorem get?_foldl_record_of_forall_ne {r : Registry κ} {s rule : String} {ns : List (Entry κ)}
    (h : ∀ n ∈ ns, n.attempt.key ≠ (s, rule)) (x : Experience κ) :
    (ns.foldl r.record x).get? s rule = x.get? s rule := by
  refine List.foldlRecOn ns r.record (motive := fun y => y.get? s rule = x.get? s rule) rfl ?_
  intro y hy n hn
  rw [get?_record_of_ne (h n hn), hy]

/-- **After a failure the confidence is 1/2 or less**, until something else is recorded of the
strategy on the rule. -/
theorem confidence_of_last_failed {e : Engine Rat} (hr : e.registry.Sound)
    (hx : e.experience.Bounded) {moves : List Move} {s rule : String}
    (h : (e.outcomes moves s rule).getLast? = some false) :
    ∃ rec, (e.steps moves).experience.get? s rule = some rec ∧ rec.confidence ≤ 1 / 2 := by
  obtain ⟨before, n, after, hsplit, hpair, hfailed, hafter⟩ := exists_of_getLast?_outcomes h
  have hmem : n ∈ e.journal moves := by
    have hrecorded : n ∈ e.recorded moves := by
      rw [hsplit]
      exact List.mem_append_right before List.mem_cons_self
    exact List.mem_of_mem_filter hrecorded
  obtain ⟨x, hget, -⟩ := get?_of_mem_journal hr n hmem
  obtain ⟨rec, hrec, hle⟩ :=
    hr.get?_record_of_failed (hx.foldl_record hr before) hfailed hget
  obtain ⟨rfl, rfl⟩ := Prod.mk.inj hpair
  refine ⟨rec, ?_, hle⟩
  rw [experience_steps moves hr, hsplit, List.foldl_append, List.foldl_cons,
    get?_foldl_record_of_forall_ne hafter, hrec]

/-! ## Below the thresholds -/

/-- The confidence of a strategy in a rule was learned, and it reaches no threshold. -/
def Barred (e : Engine κ) (s rule : String) : Prop :=
  ∃ rec, e.experience.get? s rule = some rec ∧ ¬ e.thresholds.safe ≤ rec.confidence ∧
    ¬ e.thresholds.risky ≤ rec.confidence

variable [LawfulConfidence κ] {s rule : String}

/-- A strategy is not attempted on a rule from which it is barred. -/
theorem Barred.ne_of_mem_made {e : Engine κ} (h : e.Barred s rule) {m : Move} {a : Attempt κ}
    (ha : a ∈ e.made m) : a.key ≠ (s, rule) := by
  intro hpair
  obtain ⟨rfl, rfl⟩ := Prod.mk.inj hpair
  obtain ⟨rec, hrec, hsafe, hrisky⟩ := h
  obtain ⟨x, -, hadjust, hpasses⟩ := passes_of_mem_made ha
  have hconfidence : e.experience.snapshot.confidence x a.issue.rule = rec.confidence := by
    have hid : x.id = a.strategy.id := by rw [hadjust, Snapshot.adjust_id]
    rw [Snapshot.confidence, hid, Experience.get?_snapshot, hrec]
    rfl
  unfold Passes at hpasses
  rw [hconfidence] at hpasses
  rcases hpasses with ⟨hgate, -⟩ | ⟨-, hgate⟩
  · exact hsafe hgate
  · exact hrisky hgate

theorem Barred.get?_step {e : Engine κ} (h : e.Barred s rule) (m : Move) :
    (e.step m).experience.get? s rule = e.experience.get? s rule :=
  get?_step_of_forall_ne fun _ ha => h.ne_of_mem_made ha

theorem Barred.step {e : Engine κ} (h : e.Barred s rule) (m : Move) : (e.step m).Barred s rule := by
  unfold Barred
  rw [h.get?_step m, step_thresholds]
  exact h

/-- **A strategy that is barred from a rule is never attempted on it again**, and its record stays
as it is. -/
theorem steps_of_barred (moves : List Move) {e : Engine κ} (h : e.Barred s rule) :
    (∀ n ∈ e.journal moves, n.attempt.key ≠ (s, rule)) ∧
      (e.steps moves).experience.get? s rule = e.experience.get? s rule := by
  have hnext : ∀ {e : Engine κ} {m : Move}, e.Barred s rule → (e.step m).Barred s rule :=
    fun h => h.step _
  constructor
  · refine forall_mem_journal (P := fun e _ => e.Barred s rule) hnext ?_ moves h
    intro e m moves h n hn
    exact h.ne_of_mem_made (attempt_mem_made hn)
  · exact steps_keep (P := fun e _ => e.Barred s rule)
      (f := fun e => e.experience.get? s rule) hnext (fun h => h.get?_step _) moves h

/-! ## One failure -/

/-- **One failure is enough.** In an engine that began without experience and has thresholds above
1/2, a strategy whose last recorded outcome on a rule is a failure is never attempted on that rule
again, whatever happens later, and its record stays as it is. -/
theorem failure_bars {e : Engine Rat} (hr : e.registry.Built) (hx : e.experience = .empty)
    (hsafe : 1 / 2 < e.thresholds.safe) (hrisky : 1 / 2 < e.thresholds.risky) {moves : List Move}
    {s rule : String} (hlast : (e.outcomes moves s rule).getLast? = some false)
    (later : List Move) :
    (∀ n ∈ (e.steps moves).journal later,
        ¬ (n.attempt.strategy.id = s ∧ n.attempt.issue.rule = rule)) ∧
      (e.steps (moves ++ later)).experience.get? s rule =
        (e.steps moves).experience.get? s rule := by
  have hbounded : e.experience.Bounded := by
    rw [hx]
    exact .empty
  obtain ⟨rec, hrec, hle⟩ := confidence_of_last_failed hr.sound hbounded hlast
  have hbarred : (e.steps moves).Barred s rule := by
    refine ⟨rec, hrec, ?_, ?_⟩
    · rw [steps_thresholds]
      exact fun h => absurd (hsafe.trans_le (h.trans hle)) (lt_irrefl _)
    · rw [steps_thresholds]
      exact fun h => absurd (hrisky.trans_le (h.trans hle)) (lt_irrefl _)
  obtain ⟨hjournal, hget⟩ := steps_of_barred later hbarred
  refine ⟨fun n hn hpair => hjournal n hn (Prod.ext hpair.1 hpair.2), ?_⟩
  rw [steps_append, hget]

/-- Nothing is imported in an empty text, so nothing can be removed from its imports. -/
theorem failure_bars_sample :
    let e : Engine Rat := { registry := .standard, thresholds := .standard }
    let d : Detector Nat := .scripted [{ outcome := .ok sampleDetection }]
    let moves : List Move := [.session d sampleStart "a.ts" []]
    let later : List Move := [.setSafetyMode false, .session d sampleStart "a.ts" sampleText]
    (e.outcomes moves "optimize_imports" "unused_imports").getLast? = some false ∧
      (e.steps (moves ++ later)).experience.get? "optimize_imports" "unused_imports" =
        (e.steps moves).experience.get? "optimize_imports" "unused_imports" := by
  intro e d moves later
  have hr : e.registry.Built := Registry.built_standard
  have hsafe : 1 / 2 < e.thresholds.safe := by decide +kernel
  have hrisky : 1 / 2 < e.thresholds.risky := by decide +kernel
  have hlast : (e.outcomes moves "optimize_imports" "unused_imports").getLast? = some false := by
    decide +kernel
  exact ⟨hlast, (failure_bars hr rfl hsafe hrisky hlast later).2⟩

end Engine

end Mend

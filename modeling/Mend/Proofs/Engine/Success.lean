import Mend.Proofs.Engine.Buckets
import Mend.Proofs.Engine.Failure

/-!
# What successes come to

A success takes the confidence of a strategy in a rule closer to 1, and leaves that of all others
where it was. So a rule on which every attempt succeeded keeps its strategy, and repairing its
issues becomes no less automatic. Confidences are taken as exact rational numbers here.

* `select_of_raised`: a selected strategy stays selected when its confidence grows and that of no
  other strategy for the rule changes.
* `confidence_le_foldl_teach`: attempts that succeed take no confidence down.
* `success_promotes`: after a session in which every attempt on a rule succeeded, the next one
  selects the same strategy for it, with at least the same confidence.
-/

namespace Mend

/-- A weighted score grows with the confidence. -/
theorem Strategy.score_le_score (x : Strategy Rat) {c c' : Rat} (h : c ≤ c') :
    (x.withConfidence c).score ≤ (x.withConfidence c').score := by
  unfold score withConfidence
  dsimp only
  refine Rat.mul_le_mul_of_nonneg_right h ?_
  cases x.complexity <;> decide +kernel

/-- Strategies of a registry that share their identifier are the same. -/
theorem Registry.Sound.eq_of_id {r : Registry Rat} (hr : r.Sound) {x y : Strategy Rat}
    (hx : x ∈ r.strategies) (hy : y ∈ r.strategies) (hid : y.id = x.id) : y = x := by
  have hget := hr.get?_id hy
  rw [hid, hr.get?_id hx] at hget
  exact (Option.some.inj hget).symm

/-- **A selected strategy stays selected** when its confidence in the rule grows and that of no
other strategy for the rule changes. Ties are no obstacle, since it was registered before all that
scored the same. -/
theorem select_of_raised {r : Registry Rat} (hr : r.Sound) {learned learned' : Snapshot Rat}
    {rule : String} {s : Strategy Rat} (hselect : r.select learned rule = some s)
    (hraised : ∀ x ∈ r.forRule rule, x.id = s.id →
      learned.confidence x rule ≤ learned'.confidence x rule)
    (hothers : ∀ id, id ≠ s.id → learned'.get? id rule = learned.get? id rule) :
    ∃ x ∈ r.forRule rule, s = x.withConfidence (learned.confidence x rule) ∧
      r.select learned' rule = some (x.withConfidence (learned'.confidence x rule)) := by
  obtain ⟨before, x, after, hlisted, rfl, hscore, hbefore, hafter⟩ := select_eq_some_iff.mp hselect
  rw [Snapshot.adjust_id] at hraised hothers
  have hx : x ∈ r.forRule rule := by
    rw [hlisted]
    exact List.mem_append_right before List.mem_cons_self
  have hgrown : (learned.adjust rule x).score ≤ (learned'.adjust rule x).score := by
    rw [Snapshot.adjust_eq_withConfidence, Snapshot.adjust_eq_withConfidence]
    exact x.score_le_score (hraised x hx rfl)
  have hsame : ∀ {y : Strategy Rat}, y.id ≠ x.id →
      learned'.adjust rule y = learned.adjust rule y := by
    intro y hid
    rw [Snapshot.adjust_eq_withConfidence, Snapshot.adjust_eq_withConfidence, Snapshot.confidence,
      Snapshot.confidence, hothers y.id hid]
  have hlisted_id : ∀ {y}, y ∈ r.forRule rule → y.id = x.id → y = x := fun hy hid =>
    hr.eq_of_id (hr.mem_of_listed hx) (hr.mem_of_listed hy) hid
  refine ⟨x, hx, learned.adjust_eq_withConfidence rule x, ?_⟩
  rw [← Snapshot.adjust_eq_withConfidence]
  refine select_eq_some_iff.mpr ⟨before, x, after, hlisted, rfl, hscore.trans_le hgrown, ?_, ?_⟩
  · intro y hy
    have hid : y.id ≠ x.id := by
      intro hid
      obtain rfl := hlisted_id (by rw [hlisted]; exact List.mem_append_left _ hy) hid
      exact absurd (hbefore y hy) (lt_irrefl _)
    rw [hsame hid]
    exact (hbefore y hy).trans_le hgrown
  · intro y hy
    by_cases hid : y.id = x.id
    · have hmem : y ∈ r.forRule rule := by
        rw [hlisted]
        exact List.mem_append_right before (List.mem_cons_of_mem x hy)
      rw [hlisted_id hmem hid]
    · rw [hsame hid]
      exact (hafter y hy).trans hgrown

namespace Engine

variable {e : Engine Rat} {s : Strategy Rat} {rule : String}

/-- The confidence of a registered strategy in a rule after an attempt: it is blended with the
outcome of an attempt with the strategy on that rule, if outcomes are recorded. -/
theorem confidence_teach (hget : e.registry.get? s.id = some s) (rule : String) (now : Instant)
    (x : Experience Rat) (a : Attempt Rat) :
    (e.teach now x a).snapshot.confidence s rule =
      if e.learning = true ∧ a.key = (s.id, rule) then
        Record.blend (x.snapshot.confidence s rule) a.succeeded
      else x.snapshot.confidence s rule := by
  by_cases hkey : a.key = (s.id, rule)
  · obtain ⟨hid, rfl⟩ := Prod.mk.inj hkey
    cases hlearning : e.learning with
    | false => simp [teach, learn, hlearning]
    | true =>
      rw [if_pos ⟨rfl, hkey⟩, teach, learn, hlearning, if_pos rfl, hid, hget, Snapshot.confidence,
        Experience.get?_snapshot, Experience.get?_add, if_pos rfl, Option.map_some,
        Option.getD_some, Experience.confidence_next, Snapshot.confidence,
        Experience.get?_snapshot]
      rfl
  · rw [if_neg fun h => hkey h.2, Snapshot.confidence, Experience.get?_snapshot,
      get?_teach_of_ne hkey, Snapshot.confidence, Experience.get?_snapshot]

/-- **Attempts that succeed take no confidence down.** Attempts on other rules or with other
strategies do not matter. -/
theorem confidence_le_foldl_teach (hget : e.registry.get? s.id = some s) {now : Instant}
    {as : List (Attempt Rat)} (hall : ∀ a ∈ as, a.key = (s.id, rule) → a.succeeded = true)
    {x : Experience Rat} (hx : x.snapshot.confidence s rule ≤ 1) :
    x.snapshot.confidence s rule ≤ (as.foldl (e.teach now) x).snapshot.confidence s rule := by
  induction as generalizing x with
  | nil => exact le_refl _
  | cons a as ih =>
    have hstep : x.snapshot.confidence s rule ≤ (e.teach now x a).snapshot.confidence s rule ∧
        (e.teach now x a).snapshot.confidence s rule ≤ 1 := by
      rw [confidence_teach hget]
      split
      · next h =>
        rw [hall a List.mem_cons_self h.2]
        exact ⟨Record.le_blend_true hx, Record.blend_true_le hx⟩
      · exact ⟨le_refl _, hx⟩
    rw [List.foldl_cons]
    exact hstep.1.trans (ih (fun a ha => hall a (List.mem_cons_of_mem _ ha)) hstep.2)

/-- **Success never demotes.** After a session in which attempts were made on a rule and all of them
succeeded, the same strategy is selected for the rule, its confidence is at least what it was, and
the bucket of the rule is at least as automatic. -/
theorem success_promotes {σ : Type} (hr : e.registry.Built) (hx : e.experience.Bounded)
    (d : Detector σ) (w : Surroundings σ) (file : String) (t : Text)
    (hsome : ∃ a ∈ e.made (.session d w file t), a.issue.rule = rule)
    (hall : ∀ a ∈ e.made (.session d w file t), a.issue.rule = rule → a.succeeded = true) :
    let e' := (e.run d w file t).2.1
    ∃ x ∈ e.registry.forRule rule, ∃ c c',
      e.registry.select e.experience.snapshot rule = some (x.withConfidence c) ∧
      e'.registry.select e'.experience.snapshot rule = some (x.withConfidence c') ∧
      c ≤ c' ∧ (e'.bucket rule).rank ≤ (e.bucket rule).rank := by
  intro e'
  obtain ⟨a, ha, rfl⟩ := hsome
  have hselect := (selected_of_mem_made ha).1
  have hraised : ∀ x ∈ e.registry.forRule a.issue.rule, x.id = a.strategy.id →
      e.experience.snapshot.confidence x a.issue.rule ≤
        e'.experience.snapshot.confidence x a.issue.rule := by
    intro x hlisted _
    have hget : e.registry.get? x.id = some x := hr.sound.get?_id (hr.sound.mem_of_listed hlisted)
    have hle : e.experience.snapshot.confidence x a.issue.rule ≤ 1 := by
      rw [Snapshot.confidence, Experience.get?_snapshot]
      exact (hx.old (hr.sound.bounded hget) x.id a.issue.rule).2
    show _ ≤ (e.step (.session d w file t)).experience.snapshot.confidence x a.issue.rule
    rw [step_session]
    exact confidence_le_foldl_teach hget (fun b hb hkey => hall b hb (Prod.mk.inj hkey).2) hle
  have hothers : ∀ id, id ≠ a.strategy.id →
      e'.experience.snapshot.get? id a.issue.rule =
        e.experience.snapshot.get? id a.issue.rule := by
    intro id hid
    have hget : e'.experience.get? id a.issue.rule = e.experience.get? id a.issue.rule := by
      refine get?_step_of_forall_ne (m := .session d w file t) fun b hb hkey => hid ?_
      -- All attempts on the rule are made with the one strategy selected for it.
      obtain ⟨rfl, hrule⟩ := Prod.mk.inj hkey
      have hselect' := (selected_of_mem_made hb).1
      rw [hrule, hselect] at hselect'
      rw [Option.some.inj hselect']
    rw [Experience.get?_snapshot, Experience.get?_snapshot, hget]
  obtain ⟨x, hlisted, hstrategy, hselect'⟩ :=
    select_of_raised hr.sound hselect hraised hothers
  have hregistry : e'.registry = e.registry := step_registry e (.session d w file t)
  have hthresholds : e'.thresholds = e.thresholds := step_thresholds e (.session d w file t)
  have hle := hraised x hlisted (by rw [hstrategy]; rfl)
  rw [hstrategy] at hselect
  refine ⟨x, hlisted, _, _, hselect, by rw [hregistry, hselect'], hle, ?_⟩
  rw [bucket, bucket, hregistry, hthresholds, hselect, hselect']
  exact e.thresholds.rank_bucket_le rfl hle

/-- The import in the sample text can be removed, so the session succeeds on it, although its second
detection fails. -/
theorem success_promotes_sample :
    let e : Engine Rat := { registry := .standard, thresholds := .standard }
    let m : Move := .session (sampleDetector (.error "gone")) sampleStart "a.ts" sampleText
    (e.made m).map (fun a => (a.issue.rule, a.succeeded)) = [("unused_imports", true)] ∧
      ∃ (x : Strategy Rat) (c c' : Rat), e.registry.select e.experience.snapshot "unused_imports" =
          some (x.withConfidence c) ∧
        (e.step m).registry.select (e.step m).experience.snapshot "unused_imports" =
          some (x.withConfidence c') ∧
        c ≤ c' ∧ ((e.step m).bucket "unused_imports").rank ≤ (e.bucket "unused_imports").rank := by
  intro e m
  have hr : e.registry.Built := Registry.built_standard
  have hmade : (e.made m).map (fun a => (a.issue.rule, a.succeeded)) =
      [("unused_imports", true)] := by decide +kernel
  have hmem : ∀ a ∈ e.made m, (a.issue.rule, a.succeeded) = ("unused_imports", true) := by
    intro a ha
    have h := List.mem_map_of_mem (f := fun a => (a.issue.rule, a.succeeded)) ha
    rw [hmade] at h
    exact List.mem_singleton.mp h
  have hsome : ∃ a ∈ e.made m, a.issue.rule = "unused_imports" := by
    obtain ⟨a, ha, hrule⟩ := List.mem_map.mp
      (hmade ▸ List.mem_singleton_self ("unused_imports", true))
    exact ⟨a, ha, (Prod.mk.inj hrule).1⟩
  obtain ⟨x, -, c, c', h⟩ := success_promotes hr .empty _ _ _ _ hsome
    fun a ha _ => (Prod.mk.inj (hmem a ha)).2
  exact ⟨hmade, x, c, c', h⟩

end Engine

end Mend

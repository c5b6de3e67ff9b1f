import Mathlib.Tactic.NormNum
import Mend.Catalog
import Mend.Plan
import Mend.Proofs.Confidence

/-!
# What is selected and what is planned

* `select_eq_some`: a selected strategy is one that is registered for the rule, with its confidence
  as learned.
* `select_congr`: a selection depends on nothing but what was learned about the strategies for the
  rule.
* `select_eq_some_iff`, `select_eq_none_iff`: among rational numbers, the first of the strategies
  with the highest score is selected, if it scores more than nothing does.
* `select_first_best`: **the first of the best is selected**, with its confidence as learned.
* `bucket_eq_safe_iff`, `bucket_eq_risky_iff`: what puts an issue into a bucket.
* `rank_bucket_le_of_reached`, `rank_bucket_le`: a strategy that reaches more thresholds, or has a
  higher confidence, never makes a bucket less automatic.
* `mem_make_safe_iff`, `mem_make_risky_iff`, `mem_make_manual_iff`: the issues of a plan are those
  of its buckets.
-/

namespace Mend

variable {κ : Type} [Confidence κ]

/-! ## Adjusted strategies -/

namespace Snapshot

variable (s : Snapshot κ) (rule : String) (x : Strategy κ)

/-- Adjusting changes nothing but the confidence. -/
theorem adjust_eq : ∃ c, s.adjust rule x = x.withConfidence c := by
  unfold adjust
  dsimp only
  split
  · exact ⟨_, rfl⟩
  · exact ⟨x.confidence, rfl⟩

@[simp] theorem adjust_id : (s.adjust rule x).id = x.id := by
  obtain ⟨c, h⟩ := s.adjust_eq rule x
  rw [h, Strategy.withConfidence]

@[simp] theorem adjust_complexity : (s.adjust rule x).complexity = x.complexity := by
  obtain ⟨c, h⟩ := s.adjust_eq rule x
  rw [h, Strategy.withConfidence]

@[simp] theorem adjust_transform : (s.adjust rule x).transform = x.transform := by
  obtain ⟨c, h⟩ := s.adjust_eq rule x
  rw [h, Strategy.withConfidence]

/-- An adjusted strategy reaches the thresholds that its effective confidence reaches. -/
theorem le_adjust_confidence_iff [LawfulConfidence κ] (c : κ) :
    c ≤ (s.adjust rule x).confidence ↔ c ≤ s.confidence x rule := by
  unfold adjust
  dsimp only
  split
  · rfl
  · rename_i h
    rw [bne, Bool.not_eq_true', Bool.not_eq_false] at h
    exact (le_congr_of_beq h c).symm

end Snapshot

/-! ## Selection -/

theorem foldl_consider_strategy {ss : List (Strategy κ)} :
    ∀ {b : Best κ} {s : Strategy κ}, (ss.foldl Best.consider b).strategy = some s →
      b.strategy = some s ∨ s ∈ ss := by
  induction ss with
  | nil => exact fun h => Or.inl h
  | cons x ss ih =>
    intro b s h
    rcases ih h with hb | hs
    · unfold Best.consider at hb
      split at hb
      · cases hb
        exact Or.inr List.mem_cons_self
      · exact Or.inl hb
    · exact Or.inr (List.mem_cons_of_mem x hs)

/-- **A selected strategy is registered for the rule**, and carries its confidence as learned. -/
theorem select_eq_some {r : Registry κ} {learned : Snapshot κ} {rule : String} {s : Strategy κ}
    (h : r.select learned rule = some s) : ∃ x ∈ r.forRule rule, s = learned.adjust rule x := by
  rcases foldl_consider_strategy h with hb | hs
  · exact absurd hb (by simp [Best.none])
  · obtain ⟨x, hx, rfl⟩ := List.mem_map.mp hs
    exact ⟨x, hx, rfl⟩

/-- **A selection depends on nothing but what was learned about the strategies for the rule.** -/
theorem select_congr {r : Registry κ} {learned learned' : Snapshot κ} {rule : String}
    (h : ∀ x ∈ r.forRule rule, learned.get? x.id rule = learned'.get? x.id rule) :
    r.select learned rule = r.select learned' rule := by
  have hadjust : (r.forRule rule).map (learned.adjust rule) =
      (r.forRule rule).map (learned'.adjust rule) := by
    refine List.map_congr_left fun x hx => ?_
    unfold Snapshot.adjust Snapshot.confidence
    rw [h x hx]
  unfold Registry.select
  rw [hadjust]

/-- The only strategy for a rule is selected if it scores more than nothing does. -/
theorem select_of_singleton {r : Registry κ} {learned : Snapshot κ} {rule : String}
    {x : Strategy κ} (h : r.forRule rule = [x]) (hscore : -1.0 < (learned.adjust rule x).score) :
    r.select learned rule = some (learned.adjust rule x) := by
  unfold Registry.select
  rw [h, List.map_singleton, List.foldl_cons, List.foldl_nil, Best.consider, Best.none,
    if_pos hscore]

/-! ## The first of the best -/

section
variable {b : Best Rat} {ss before after : List (Strategy Rat)} {s : Strategy Rat}

theorem foldl_consider_of_le (h : ∀ x ∈ ss, x.score ≤ b.score) : ss.foldl Best.consider b = b := by
  induction ss with
  | nil => rfl
  | cons x ss ih =>
    have hx : b.consider x = b := if_neg (not_lt.mpr (h x List.mem_cons_self))
    rw [List.foldl_cons, hx]
    exact ih fun y hy => h y (List.mem_cons_of_mem x hy)

theorem score_consider_lt (hb : b.score < s.score) {x : Strategy Rat} (hx : x.score < s.score) :
    (b.consider x).score < s.score := by
  unfold Best.consider
  split
  · exact hx
  · exact hb

/-- A strategy that is better than all before it and no worse than any behind it comes out best. -/
theorem foldl_consider_of_first (hb : b.score < s.score) (hbefore : ∀ x ∈ before, x.score < s.score)
    (hafter : ∀ x ∈ after, x.score ≤ s.score) :
    (before ++ s :: after).foldl Best.consider b = ⟨some s, s.score⟩ := by
  induction before generalizing b with
  | nil =>
    have hs : b.consider s = ⟨some s, s.score⟩ := if_pos hb
    rw [List.nil_append, List.foldl_cons, hs]
    exact foldl_consider_of_le hafter
  | cons x before ih =>
    rw [List.cons_append, List.foldl_cons]
    exact ih (score_consider_lt hb (hbefore x List.mem_cons_self))
      fun y hy => hbefore y (List.mem_cons_of_mem x hy)

/-- If none of some strategies comes out best, none is better than the best one before them. -/
theorem exists_first_of_foldl_consider (ss : List (Strategy Rat)) (b : Best Rat) :
    (∀ x ∈ ss, x.score ≤ b.score) ∨
      ∃ before s after, ss = before ++ s :: after ∧ b.score < s.score ∧
        (∀ x ∈ before, x.score < s.score) ∧ ∀ x ∈ after, x.score ≤ s.score := by
  induction ss generalizing b with
  | nil => exact .inl fun x hx => absurd hx List.not_mem_nil
  | cons x ss ih =>
    rcases ih (b.consider x) with hle | ⟨before, s, after, rfl, hs, hbefore, hafter⟩
    · by_cases hx : b.score < x.score
      · have hbest : b.consider x = ⟨some x, x.score⟩ := if_pos hx
        rw [hbest] at hle
        exact .inr ⟨[], x, ss, rfl, hx, fun y hy => absurd hy List.not_mem_nil, hle⟩
      · have hbest : b.consider x = b := if_neg hx
        rw [hbest] at hle
        refine .inl fun y hy => ?_
        rcases List.mem_cons.mp hy with rfl | hy
        · exact not_lt.mp hx
        · exact hle y hy
    · have hscores : b.score < s.score ∧ x.score < s.score := by
        by_cases hx : b.score < x.score
        · have hbest : b.consider x = ⟨some x, x.score⟩ := if_pos hx
          rw [hbest] at hs
          exact ⟨hx.trans hs, hs⟩
        · have hbest : b.consider x = b := if_neg hx
          rw [hbest] at hs
          exact ⟨hs, (not_lt.mp hx).trans_lt hs⟩
      refine .inr ⟨x :: before, s, after, rfl, hscores.1, ?_, hafter⟩
      intro y hy
      rcases List.mem_cons.mp hy with rfl | hy
      · exact hscores.2
      · exact hbefore y hy

end

/-- Among rational numbers, adjusting is putting in the confidence as learned. -/
theorem Snapshot.adjust_eq_withConfidence (s : Snapshot Rat) (rule : String) (x : Strategy Rat) :
    s.adjust rule x = x.withConfidence (s.confidence x rule) := by
  unfold adjust
  dsimp only
  split
  · rfl
  · rename_i h
    rw [bne, Bool.not_eq_true', Bool.not_eq_false] at h
    rw [eq_of_beq h]
    rfl

theorem Best.score_none : (none : Best Rat).score = -1 := by
  show (-1.0 : Rat) = -1
  norm_num

/-- **The first of the best is selected**: it scores more than all strategies that were registered
for the rule before it, and no less than any that were registered behind it. -/
theorem select_eq_some_iff {r : Registry Rat} {learned : Snapshot Rat} {rule : String}
    {s : Strategy Rat} :
    r.select learned rule = some s ↔
      ∃ before x after, r.forRule rule = before ++ x :: after ∧ s = learned.adjust rule x ∧
        -1 < s.score ∧ (∀ y ∈ before, (learned.adjust rule y).score < s.score) ∧
        ∀ y ∈ after, (learned.adjust rule y).score ≤ s.score := by
  constructor
  · intro h
    rcases exists_first_of_foldl_consider ((r.forRule rule).map (learned.adjust rule)) .none with
      hle | ⟨before, s', after, hsplit, hs, hbefore, hafter⟩
    · rw [Registry.select, foldl_consider_of_le hle] at h
      cases h
    · rw [Registry.select, hsplit, foldl_consider_of_first hs hbefore hafter] at h
      obtain rfl := Option.some.inj h
      rw [Best.score_none] at hs
      obtain ⟨xs, rest, hlisted, rfl, hrest⟩ := List.map_eq_append_iff.mp hsplit
      obtain ⟨x, ys, rfl, hx, rfl⟩ := List.map_eq_cons_iff.mp hrest
      refine ⟨xs, x, ys, hlisted, hx.symm, hs, fun y hy => hbefore _ (List.mem_map_of_mem hy),
        fun y hy => hafter _ (List.mem_map_of_mem hy)⟩
  · rintro ⟨before, x, after, hlisted, rfl, hs, hbefore, hafter⟩
    rw [← Best.score_none] at hs
    rw [Registry.select, hlisted, List.map_append, List.map_cons,
      foldl_consider_of_first hs (List.forall_mem_map.mpr hbefore) (List.forall_mem_map.mpr hafter)]

/-- Nothing is selected exactly if no strategy for the rule scores more than nothing does. -/
theorem select_eq_none_iff {r : Registry Rat} {learned : Snapshot Rat} {rule : String} :
    r.select learned rule = none ↔ ∀ x ∈ r.forRule rule, (learned.adjust rule x).score ≤ -1 := by
  constructor
  · intro h x hx
    rcases exists_first_of_foldl_consider ((r.forRule rule).map (learned.adjust rule)) .none with
      hle | ⟨before, s, after, hsplit, hs, hbefore, hafter⟩
    · rw [← Best.score_none]
      exact hle _ (List.mem_map_of_mem hx)
    · rw [Registry.select, hsplit, foldl_consider_of_first hs hbefore hafter] at h
      cases h
  · intro h
    rw [← Best.score_none] at h
    rw [Registry.select, foldl_consider_of_le (List.forall_mem_map.mpr h), Best.none]

/-- The score of a strategy on issues of a rule: its confidence as learned, weighted by its
complexity. -/
def Snapshot.score (s : Snapshot Rat) (rule : String) (x : Strategy Rat) : Rat :=
  s.confidence x rule * x.complexity.weight

theorem Snapshot.score_adjust (s : Snapshot Rat) (rule : String) (x : Strategy Rat) :
    (s.adjust rule x).score = s.score rule x := by
  rw [adjust_eq_withConfidence]
  rfl

/-- An element is the first of those with the highest score. -/
def FirstBest {α : Type} (score : α → Rat) (xs : List α) (x : α) : Prop :=
  ∃ before after, xs = before ++ x :: after ∧
    (∀ y ∈ before, score y < score x) ∧ ∀ y ∈ after, score y ≤ score x

/-- **The first of the best is selected, if it scores more than nothing does**, and it is as it was
registered except for its confidence, which is the one learned for it and the rule, if there is one.
Whatever else was learned makes no difference. -/
theorem select_first_best (r : Registry Rat) (learned : Snapshot Rat) (i : Issue) :
    (∀ s, r.select learned i.rule = some s ↔
      ∃ x, FirstBest (learned.score i.rule) (r.forRule i.rule) x ∧ -1 < learned.score i.rule x ∧
        s = { x with confidence := (learned.get? x.id i.rule).getD x.confidence }) ∧
    (r.select learned i.rule = none ↔ ∀ x ∈ r.forRule i.rule, learned.score i.rule x ≤ -1) ∧
    ∀ learned' : Snapshot Rat,
      (∀ x ∈ r.forRule i.rule, learned'.get? x.id i.rule = learned.get? x.id i.rule) →
        r.select learned' i.rule = r.select learned i.rule := by
  refine ⟨fun s => ?first, ?nothing, fun learned' h => select_congr h⟩
  case first =>
    rw [select_eq_some_iff]
    simp only [Snapshot.score_adjust]
    constructor
    · rintro ⟨before, x, after, hlisted, rfl, hscore, hbefore, hafter⟩
      rw [Snapshot.score_adjust] at hscore hbefore hafter
      exact ⟨x, ⟨before, after, hlisted, hbefore, hafter⟩, hscore,
        learned.adjust_eq_withConfidence i.rule x⟩
    · rintro ⟨x, ⟨before, after, hlisted, hbefore, hafter⟩, hscore, rfl⟩
      exact ⟨before, x, after, hlisted, (learned.adjust_eq_withConfidence i.rule x).symm, hscore,
        hbefore, hafter⟩
  case nothing =>
    rw [select_eq_none_iff]
    simp only [Snapshot.score_adjust]

/-- What was learned makes two strategies score the same, so that the one that was registered first
is selected. What was learned about another rule and about a strategy for another rule is of no
account. -/
theorem select_first_best_sample :
    let r : Registry Rat := .standard
    let i : Issue := { rule := "async_without_await", description := "" }
    let learned : Snapshot Rat := ⟨[(("add_error_handling", i.rule), 0.85)]⟩
    let learned' : Snapshot Rat :=
      (learned.set "remove_redundant_async" "unused_imports" 1).set "optimize_imports" i.rule 1
    (r.forRule i.rule).map (fun x => (x.id, learned.score i.rule x)) =
        [("add_error_handling", 0.85), ("remove_redundant_async", 0.85)] ∧
      (∀ x ∈ r.forRule i.rule, learned'.get? x.id i.rule = learned.get? x.id i.rule) ∧
      r.select learned' i.rule = r.select learned i.rule ∧
      ∃ x, FirstBest (learned.score i.rule) (r.forRule i.rule) x ∧ x.id = "add_error_handling" ∧
        r.select learned i.rule = some { x with confidence := 0.85 } := by
  intro r i learned learned'
  have hscores : (r.forRule i.rule).map (fun x => (x.id, learned.score i.rule x)) =
      [("add_error_handling", 0.85), ("remove_redundant_async", 0.85)] := by decide +kernel
  obtain ⟨x, ys, hlisted, hx, hys⟩ := List.map_eq_cons_iff.mp hscores
  obtain ⟨y, rfl, hy⟩ := List.map_eq_singleton_iff.mp hys
  obtain ⟨hxid, hxscore⟩ := Prod.mk.inj hx
  obtain ⟨hyid, hyscore⟩ := Prod.mk.inj hy
  have hsame : ∀ z ∈ r.forRule i.rule, learned'.get? z.id i.rule = learned.get? z.id i.rule := by
    rw [hlisted]
    simp only [List.forall_mem_cons, hxid, hyid]
    exact ⟨by decide +kernel, by decide +kernel, by simp⟩
  have hbest : FirstBest (learned.score i.rule) (r.forRule i.rule) x := by
    refine ⟨[], [y], hlisted, by simp, fun z hz => ?_⟩
    rw [List.mem_singleton.mp hz, hxscore, hyscore]
  obtain ⟨hselected, -, hothers⟩ := select_first_best r learned i
  refine ⟨hscores, hsame, hothers learned' hsame, x, hbest, hxid, (hselected _).mpr ?_⟩
  refine ⟨x, hbest, by rw [hxscore]; norm_num, ?_⟩
  rw [hxid]
  rfl

/-! ## Buckets -/

/-- How far a bucket is from automatic repair. -/
def Bucket.rank : Bucket → Nat
  | safe => 0
  | risky => 1
  | manual => 2

namespace Thresholds

variable {th : Thresholds κ} {o : Option (Strategy κ)}

theorem bucket_eq_safe_iff :
    th.bucket o = .safe ↔ ∃ s, o = some s ∧ th.safe ≤ s.confidence ∧ s.complexity ≠ .complex := by
  cases o with
  | none => simp [bucket]
  | some s =>
    unfold bucket
    dsimp only
    split
    · simp_all
    · split <;> simp_all

theorem bucket_eq_risky_iff :
    th.bucket o = .risky ↔
      ∃ s, o = some s ∧ ¬ (th.safe ≤ s.confidence ∧ s.complexity ≠ .complex) ∧
        th.risky ≤ s.confidence := by
  cases o with
  | none => simp [bucket]
  | some s =>
    unfold bucket
    dsimp only
    split
    · simp_all
    · split <;> simp_all

/-- A strategy that reaches every threshold that another one reaches, and changes as much, is no less
automatic. -/
theorem rank_bucket_le_of_reached {th th' : Thresholds κ} {s s' : Strategy κ}
    (hcomplexity : s'.complexity = s.complexity)
    (hsafe : th'.safe ≤ s.confidence → th.safe ≤ s'.confidence)
    (hrisky : th'.risky ≤ s.confidence → th.risky ≤ s'.confidence) :
    (th.bucket (some s')).rank ≤ (th'.bucket (some s)).rank := by
  cases hbucket : th'.bucket (some s) with
  | safe =>
    obtain ⟨_, ⟨⟩, hreached, hsimple⟩ := bucket_eq_safe_iff.mp hbucket
    rw [bucket_eq_safe_iff.mpr ⟨s', rfl, hsafe hreached, hcomplexity ▸ hsimple⟩]
  | risky =>
    obtain ⟨_, ⟨⟩, -, hreached⟩ := bucket_eq_risky_iff.mp hbucket
    by_cases hgate : th.safe ≤ s'.confidence ∧ s'.complexity ≠ .complex
    · rw [bucket_eq_safe_iff.mpr ⟨s', rfl, hgate⟩]
      exact Nat.zero_le 1
    · rw [bucket_eq_risky_iff.mpr ⟨s', rfl, hgate, hrisky hreached⟩]
  | manual => cases th.bucket (some s') <;> decide

/-- A higher confidence never makes a bucket less automatic. -/
theorem rank_bucket_le [LawfulConfidence κ] (th : Thresholds κ) {s s' : Strategy κ}
    (hcomplexity : s'.complexity = s.complexity) (hle : s.confidence ≤ s'.confidence) :
    (th.bucket (some s')).rank ≤ (th.bucket (some s)).rank :=
  rank_bucket_le_of_reached hcomplexity (fun h => LawfulConfidence.trans h hle)
    fun h => LawfulConfidence.trans h hle

end Thresholds

/-! ## Plans -/

namespace Plan

theorem mem_byPriority {i : Issue} {issues : List Issue} : i ∈ byPriority issues ↔ i ∈ issues :=
  List.mem_mergeSort

variable {r : Registry κ} {learned : Snapshot κ} {th : Thresholds κ} {issues : List Issue}
  {i : Issue}

theorem mem_make_safe_iff :
    i ∈ (make r learned th issues).safe ↔
      i ∈ issues ∧ th.bucket (r.select learned i.rule) = .safe := by
  unfold make ofBuckets
  rw [mem_byPriority, List.mem_filter, decide_eq_true_iff]

theorem mem_make_risky_iff :
    i ∈ (make r learned th issues).risky ↔
      i ∈ issues ∧ th.bucket (r.select learned i.rule) = .risky := by
  unfold make ofBuckets
  rw [mem_byPriority, List.mem_filter, decide_eq_true_iff]

theorem mem_make_manual_iff :
    i ∈ (make r learned th issues).manual ↔
      i ∈ issues ∧ th.bucket (r.select learned i.rule) = .manual := by
  unfold make ofBuckets
  rw [List.mem_filter, decide_eq_true_iff]

end Plan

end Mend

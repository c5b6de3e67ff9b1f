import Mend.Proofs.Idiom.Functions
import Mend.Proofs.Rule
import Mend.Proofs.Sorting

/-!
# What is detected, and in which order

The rules look through a text one after the other, and what they report is sorted by severity. A rule
is ignored by leaving it out beforehand, which comes to the same as leaving out its issues in the
end.

* `Rule.filter_flatMap_reported`: the issues of some of the rules are the issues that name them.
* `Rule.SeenFrom`: issues in the order in which they are seen in a text.
* `Detection.Ordered`: the order of issues by severity, rule and place.
* `Detection.ignoring_filters`: **to ignore rules is to leave out their issues**; the issues are in
  order, and a rule that fails makes no difference.
-/

namespace Mend

open Text Reader

/-! ## What rules report -/

namespace Rule

variable {r : Rule} {p : Pattern} {t : Text}

/-- The issues of some of the rules are the issues that name them. -/
theorem filter_flatMap_reported (q : String → Bool) (rules : List Rule) :
    (rules.flatMap (reported t)).filter (fun i => q i.rule) =
      (rules.filter fun r => q r.id).flatMap (reported t) := by
  induction rules with
  | nil => rfl
  | cons r rules ih =>
    have hsame : ∀ i ∈ r.reported t, q i.rule = q r.id :=
      fun i hi => congrArg q (rule_of_mem_reported hi)
    rw [List.flatMap_cons, List.filter_append, ih]
    by_cases hr : q r.id
    · rw [List.filter_cons_of_pos (p := fun r : Rule => q r.id) hr, List.flatMap_cons,
        List.filter_eq_self.mpr fun i hi => (hsame i hi).trans hr]
    · rw [List.filter_cons_of_neg (p := fun r : Rule => q r.id) hr,
        List.filter_eq_nil_iff.mpr fun i hi => hsame i hi ▸ hr, List.nil_append]

/-! ## Rules in the order of the catalog -/

/-- The place of a rule in the catalog. -/
def order (id : String) : Nat := ((catalog {}).map (·.id)).idxOf id

/-- Limits are of no account for which rules there are. -/
theorem pairwise_catalog (s : DetectorSettings) :
    (catalog s).Pairwise fun r r' => order r.id < order r'.id := by
  have hids : ((catalog s).map (·.id)).Pairwise fun a b => order a < order b := by
    show ((catalog {}).map (·.id)).Pairwise _
    decide +kernel
  exact (List.pairwise_map (R := fun a b => order a < order b)).mp hids

theorem pairwise_active (s : DetectorSettings) :
    (active s).Pairwise fun r r' => order r.id < order r'.id :=
  (pairwise_catalog s).sublist List.filter_sublist

/-- No two rules share their name. -/
theorem filter_active {s : DetectorSettings} (h : r ∈ active s) :
    (active s).filter (fun r' => r'.id = r.id) = [r] := by
  have hrules := pairwise_active s
  generalize active s = rules at h hrules
  induction rules with
  | nil => cases h
  | cons x rules ih =>
    rw [List.pairwise_cons] at hrules
    obtain rfl | h := List.mem_cons.mp h
    · rw [List.filter_cons_of_pos (by simp), List.filter_eq_nil_iff.mpr]
      intro y hy hid
      have hlt := hrules.1 y hy
      rw [of_decide_eq_true hid] at hlt
      exact Nat.lt_irrefl _ hlt
    · have hne : x.id ≠ r.id := fun hid => by
        have hlt := hrules.1 r h
        rw [hid] at hlt
        exact Nat.lt_irrefl _ hlt
      rw [List.filter_cons_of_neg (by simpa using hne)]
      exact ih h hrules.2

theorem pairwise_flatMap_reported (s : DetectorSettings) :
    ((active s).flatMap (reported t)).Pairwise fun i j => order i.rule ≤ order j.rule := by
  rw [List.pairwise_flatMap]
  constructor
  · intro r _
    refine List.pairwise_of_forall_mem_list fun i hi j hj => ?_
    rw [rule_of_mem_reported hi, rule_of_mem_reported hj]
  · refine (pairwise_active s).imp fun hlt i hi j hj => ?_
    rw [rule_of_mem_reported hi, rule_of_mem_reported hj]
    exact hlt.le

/-! ## Issues in the order of the text -/

/-- Issues in the order in which they are seen in a text that starts on line `l`: one behind the
other, each on the line on which the piece that shows it starts. -/
inductive SeenFrom : Nat → Text → List Issue → Prop
  | done {l : Nat} {t : Text} : SeenFrom l t []
  | pass {l : Nat} {c : Char} {t : Text} {issues : List Issue}
      (rest : SeenFrom (if c = '\n' then l + 1 else l) t issues) : SeenFrom l (c :: t) issues
  | see {l : Nat} {u t : Text} {i : Issue} {issues : List Issue} (covers : u ≠ [])
      (line : i.line = some (l : Int)) (evidence : i.evidence = trim u)
      (rest : SeenFrom (l + u.count '\n') t issues) : SeenFrom l (u ++ t) (i :: issues)

theorem seenFrom_of_scanned {b : Option Char} {l n : Nat} {ps : List Piece}
    (s : Scanned p b l n t ps) : SeenFrom l t ((Piece.hits ps).map fun h =>
      r.issue { line := some h.line, evidence := trim h.covered }) := by
  induction s with
  | nil => exact .done
  | plain _ _ ih => exact .pass ih
  | hit covers _ _ ih => exact .see covers rfl rfl ih

/-- A rule that reports each hit reports them in the order of the text. -/
theorem seenFrom_reported [∀ b, Within (p b)] (hr : r.find t = .ok (eachHit p t)) :
    SeenFrom 1 t (r.reported t) := by
  rw [reported, run, hr]
  simp only [Except.map, eachHit, List.map_map]
  exact seenFrom_of_scanned (scanned_scan p t)

theorem length_reported {found : List Finding} (hr : r.find t = .ok found) :
    (r.reported t).length = found.length := by
  rw [reported, run, hr]
  exact List.length_map _

theorem length_firstHit_le (p : Pattern) (t : Text) : (firstHit p t).length ≤ 1 := by
  rw [firstHit]
  split
  · exact Nat.zero_le 1
  · exact Nat.le_refl 1

theorem length_findUnusedImport_le (before ls : List Text) :
    (findUnusedImport before ls).length ≤ 1 := by
  induction ls generalizing before with
  | nil => exact Nat.zero_le 1
  | cons line ls ih =>
    rw [findUnusedImport]
    split
    · exact ih _
    · split
      · exact Nat.le_refl 1
      · exact ih _

/-- **Every rule reports its issues in the order of the text**, if it reports more than one. -/
theorem length_le_or_seenFrom {s : DetectorSettings} (h : r ∈ catalog s) (t : Text) :
    (r.reported t).length ≤ 1 ∨ SeenFrom 1 t (r.reported t) := by
  have hone : ∀ {r : Rule} {found : List Finding}, r.find t = .ok found → found.length ≤ 1 →
      (r.reported t).length ≤ 1 ∨ SeenFrom 1 t (r.reported t) :=
    fun hr hfound => .inl ((length_reported hr).trans_le hfound)
  simp only [catalog, List.mem_cons, List.not_mem_nil, or_false] at h
  rcases h with rfl | rfl | rfl | rfl | rfl | rfl | rfl | rfl | rfl | rfl | rfl
  · exact .inr (seenFrom_reported (p := Idiom.rawMeasurement) rfl)
  · exact .inr (seenFrom_reported (p := Idiom.idleAsync) rfl)
  · exact hone rfl (length_firstHit_le Idiom.leakedEntanglement t)
  · exact hone rfl (length_firstHit_le Idiom.consoleLog t)
  · exact hone rfl (length_firstHit_le Idiom.hardcodedSecret t)
  · exact hone rfl (length_firstHit_le Idiom.misusedSuperposition t)
  · exact hone rfl (length_findUnusedImport_le [] (lines t))
  · refine hone rfl ?_
    split
    · exact Nat.zero_le 1
    · exact Nat.le_refl 1
  · exact .inr (seenFrom_reported (p := Idiom.unhandledAwait) rfl)
  · exact hone rfl (length_firstHit_le Idiom.earlyMeasurement t)
  · refine hone rfl ?_
    split
    · exact Nat.zero_le 1
    · exact Nat.le_refl 1

end Rule

/-! ## Issues in the order of reports -/

namespace Detection

/-- Issues are ranked by severity, the most severe first. -/
theorem ranks_severity : Ranks fun a b : Issue => decide (a.severity.rank ≤ b.severity.rank) :=
  .of_key fun i : Issue => i.severity.rank

/-- The issues of a text in the order of reports: by severity, within one severity in the order of
the catalog, and within one rule in the order of the text. -/
structure Ordered (s : DetectorSettings) (t : Text) (issues : List Issue) : Prop where
  mem_iff : ∀ i, i ∈ issues ↔ ∃ r ∈ Rule.active s, i ∈ r.reported t
  severity : issues.Pairwise fun i j => i.severity.rank ≤ j.severity.rank
  rule : issues.Pairwise fun i j => i.severity = j.severity → Rule.order i.rule ≤ Rule.order j.rule
  /-- The issues of a rule are those that it reports, in its order. -/
  reported : ∀ r ∈ Rule.active s, issues.filter (·.rule = r.id) = r.reported t
  place : ∀ r ∈ Rule.active s, (r.reported t).length ≤ 1 ∨ Rule.SeenFrom 1 t (r.reported t)

variable (s : DetectorSettings) (t : Text)

theorem ordered_ofText : Ordered s t (ofText s t).issues := by
  constructor
  case mem_iff =>
    intro i
    exact List.mem_mergeSort.trans List.mem_flatMap
  case severity =>
    exact (List.pairwise_mergeSort ranks_severity.trans ranks_severity.total _).imp of_decide_eq_true
  case rule =>
    refine (ranks_severity.pairwise_mergeSort_of_tied (Rule.pairwise_flatMap_reported s)).imp ?_
    intro i j h hsame
    exact h (decide_eq_true (congrArg Severity.rank hsame).ge)
  case reported =>
    intro r hr
    have hfilter : ((Rule.active s).flatMap (Rule.reported t)).filter (·.rule = r.id) =
        r.reported t := by
      rw [Rule.filter_flatMap_reported (fun id => decide (id = r.id)), Rule.filter_active hr,
        List.flatMap_singleton]
    have hseverity : ∀ i ∈ (Rule.active s).flatMap (Rule.reported t),
        decide (i.rule = r.id) = true → i.severity = r.severity := fun i hi hid =>
      Rule.severity_of_mem_reported (hfilter ▸ List.mem_filter.mpr ⟨hi, hid⟩)
    -- issues of one rule are equally severe, so sorting leaves them as they are
    refine (ranks_severity.filter_mergeSort_of_tied fun i hi j hj hid hid' => ?_).trans hfilter
    rw [hseverity i hi hid, hseverity j hj hid']
    exact decide_eq_true (Nat.le_refl _)
  case place =>
    intro r hr
    exact Rule.length_le_or_seenFrom (List.mem_of_mem_filter hr) t

/-- A rule that fails makes no difference. -/
theorem ofRules_append_failing {broken : Rule} {e : String} (h : broken.run t = .error e)
    (before after : List Rule) :
    ofRules (before ++ broken :: after) t = ofRules (before ++ after) t := by
  have hnone : broken.reported t = [] := by rw [Rule.reported, h]
  have hsame : (before ++ broken :: after).flatMap (Rule.reported t) =
      (before ++ after).flatMap (Rule.reported t) := by
    rw [List.flatMap_append, List.flatMap_cons, hnone, List.nil_append, List.flatMap_append]
  rw [ofRules, ofRules, hsame]

/-- **To ignore rules is to leave out their issues** and to keep the order of the others. The issues
are in order, and a rule that fails makes no difference, wherever it stands. -/
theorem ignoring_filters :
    (ofText s t).issues = (ofText { s with ignore := [] } t).issues.filter (·.rule ∉ s.ignore) ∧
    Ordered s t (ofText s t).issues ∧
    ∀ before broken after, Rule.active s = before ++ after → (∃ e, broken.run t = .error e) →
      ofRules (before ++ broken :: after) t = ofText s t := by
  refine ⟨?filters, ordered_ofText s t, ?isolated⟩
  case filters =>
    have hall : Rule.active { s with ignore := [] } = Rule.catalog s :=
      List.filter_eq_self.mpr fun _ _ => rfl
    have hfiltered : (Rule.active s).flatMap (Rule.reported t) =
        ((Rule.catalog s).flatMap (Rule.reported t)).filter (·.rule ∉ s.ignore) := by
      rw [Rule.filter_flatMap_reported (fun id => decide (id ∉ s.ignore)), Rule.active]
      simp
    rw [ofText, ofText, ofRules, ofRules, hall, hfiltered]
    exact (ranks_severity.filter_mergeSort _ _).symm
  case isolated =>
    rintro before broken after hactive ⟨e, he⟩
    rw [ofRules_append_failing t he, ← hactive, ofText]

/-- Output to the console is found before the awaited statements, and is less severe. -/
theorem ignoring_filters_sample :
    let t := "console.log(a)\nawait f();\nmeasureQuantum(q);\nawait g();".toList
    let s : DetectorSettings := { ignore := ["quantum_decoherence_risk"] }
    let broken : Rule := { Rule.unusedImports with find := fun _ => .error "broken" }
    let before := (Rule.active s).take 5
    let after := (Rule.active s).drop 5
    ((Rule.active s).flatMap (Rule.reported t)).map (fun i => (i.rule, i.line)) =
        [("console_log_in_production", some 1), ("missing_error_handling", some 2),
          ("missing_error_handling", some 4)] ∧
      (ofText s t).issues = (ofText { s with ignore := [] } t).issues.filter (·.rule ∉ s.ignore) ∧
      Ordered s t (ofText s t).issues ∧
      (Rule.active s = before ++ after ∧ ∃ e, broken.run t = .error e) ∧
      ofRules (before ++ broken :: after) t = ofText s t := by
  intro t s broken before after
  have hactive : Rule.active s = before ++ after := (List.take_append_drop 5 _).symm
  have hbroken : ∃ e, broken.run t = .error e := ⟨"broken", rfl⟩
  obtain ⟨hfilters, hordered, hisolated⟩ := ignoring_filters s t
  exact ⟨by decide +kernel, hfilters, hordered, ⟨hactive, hbroken⟩,
    hisolated before broken after hactive hbroken⟩

end Detection

end Mend

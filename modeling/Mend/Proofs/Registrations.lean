import Mathlib.Data.List.Induction
import Mend.Proofs.Registry

/-!
# What a registry shows after any registrations

Strategies are registered in any order, with any identifiers, rules and confidences, and those that
are refused are passed over. A registry keeps two lists, the strategies and those for every rule;
both are determined by the strategies that were accepted, in the order in which they were.

* `registered`, `accepted`: the registry after some registrations, and which of them were accepted.
* `Tallies`: what a registry shows is made up of some strategies.
* `Tallies.register`: it stays so when one more is accepted.
* `registrations_tally`: so it is after any registrations, and who is accepted next depends on the
  accepted ones only.
-/

namespace Mend.Registry

variable {κ : Type}

/-! ## Lists of strategies for rules -/

/-- The rules that are listed after a strategy was put behind those of a rule. -/
theorem map_fst_index (s : Strategy κ) (rule : String)
    (listed : List (String × List (Strategy κ))) :
    (index s rule listed).map (·.1) =
      if rule ∈ listed.map (·.1) then listed.map (·.1) else listed.map (·.1) ++ [rule] := by
  induction listed with
  | nil => rfl
  | cons row rest ih =>
    obtain ⟨name, ss⟩ := row
    by_cases hname : name = rule
    · simp [index, hname]
    · rw [index, if_neg hname, List.map_cons, ih]
      simp only [List.map_cons, List.mem_cons, Ne.symm hname, false_or]
      split <;> rfl

/-- The distinct members of a list with one more behind it. -/
theorem eraseDups_concat {α : Type} [DecidableEq α] (xs : List α) (x : α) :
    (xs ++ [x]).eraseDups = if x ∈ xs.eraseDups then xs.eraseDups else xs.eraseDups ++ [x] := by
  rw [List.eraseDups_append]
  have hone : [x].eraseDups = [x] := rfl
  by_cases hx : x ∈ xs
  · simp [List.removeAll, hx]
  · simp [List.removeAll, hx, hone]

/-- A strategy that names rules adds those that are new, in the order in which it names them. -/
theorem map_fst_foldl_index (s : Strategy κ) (rules : List String) :
    ∀ {listed : List (String × List (Strategy κ))} {known : List String},
      listed.map (·.1) = known.eraseDups →
        (rules.foldl (fun listed rule => index s rule listed) listed).map (·.1) =
          (known ++ rules).eraseDups := by
  induction rules with
  | nil =>
    intro listed known h
    rwa [List.append_nil]
  | cons rule rules ih =>
    intro listed known h
    have hone : (index s rule listed).map (·.1) = (known ++ [rule]).eraseDups := by
      rw [map_fst_index, h, eraseDups_concat]
    rw [List.foldl_cons, ih hone, List.append_assoc, List.singleton_append]

/-- A strategy is listed for a rule as often as it names the rule. -/
theorem lookup_foldl_index (s : Strategy κ) (rule : String) (rules : List String) :
    ∀ listed : List (String × List (Strategy κ)),
      ((rules.foldl (fun listed rule => index s rule listed) listed).lookup rule).getD [] =
        (listed.lookup rule).getD [] ++ List.replicate (rules.count rule) s := by
  induction rules with
  | nil => exact fun _ => (List.append_nil _).symm
  | cons name rules ih =>
    intro listed
    rw [List.foldl_cons, ih, lookup_index]
    by_cases hname : rule = name
    · rw [if_pos hname, hname, List.count_cons_self, List.replicate_succ, Option.getD_some,
        List.append_assoc, List.singleton_append]
    · rw [if_neg hname, List.count_cons_of_ne (Ne.symm hname)]

/-! ## One registration -/

/-- What a registry shows is made up of some strategies, in their order. -/
structure Tallies (r : Registry κ) (ss : List (Strategy κ)) : Prop where
  strategies_eq : r.strategies = ss
  forRule_eq : ∀ rule, r.forRule rule = ss.flatMap fun s => List.replicate (s.rules.count rule) s
  rules_eq : r.rules = (ss.flatMap (·.rules)).eraseDups

theorem tallies_empty : Tallies (empty : Registry κ) [] where
  strategies_eq := rfl
  forRule_eq _ := rfl
  rules_eq := rfl

variable [Confidence κ]

/-- A registration is accepted if the identifier is new and the confidence lies between 0 and 1, and
then the strategy joins both lists. -/
theorem register_eq_ok_iff {r r' : Registry κ} {s : Strategy κ} :
    r.register s = .ok r' ↔
      (s.id ∉ r.strategies.map (·.id) ∧ 0.0 ≤ s.confidence ∧ s.confidence ≤ 1.0) ∧
        r' = ⟨r.strategies ++ [s],
          s.rules.foldl (fun listed rule => index s rule listed) r.byRule⟩ := by
  have htaken : r.contains s.id ↔ s.id ∈ r.strategies.map (·.id) := by
    simp [contains, List.any_eq_true]
  rw [register]
  split
  · next h => simp [htaken.mp h]
  · next h =>
    rw [htaken] at h
    split
    · next hrange => simp only [h, hrange, Except.ok.injEq, not_false_eq_true, and_self, true_and,
        eq_comm]
    · next hrange => simp only [reduceCtorEq, hrange, and_false, false_and]

/-- **A strategy that is accepted joins the others, in both lists.** -/
theorem Tallies.register {r r' : Registry κ} {ss : List (Strategy κ)} {s : Strategy κ}
    (h : r.Tallies ss) (hr : r.register s = .ok r') : r'.Tallies (ss ++ [s]) := by
  obtain ⟨-, rfl⟩ := register_eq_ok_iff.mp hr
  constructor
  case strategies_eq => rw [h.strategies_eq]
  case forRule_eq =>
    intro rule
    have hrule := h.forRule_eq rule
    rw [forRule] at hrule ⊢
    rw [lookup_foldl_index, hrule]
    simp
  case rules_eq =>
    have hrules := map_fst_foldl_index s s.rules h.rules_eq
    rw [rules, hrules]
    simp

/-! ## Any registrations -/

/-- One registration, with the strategies that were accepted so far. One that is refused is passed
over. -/
def enter (state : Registry κ × List (Strategy κ)) (s : Strategy κ) :
    Registry κ × List (Strategy κ) :=
  match state.1.register s with
  | .ok r => (r, state.2 ++ [s])
  | .error _ => state

/-- The registry after some registrations. -/
def registered (ss : List (Strategy κ)) : Registry κ := (ss.foldl enter (empty, [])).1

/-- The strategies that were accepted in some registrations, in their order. -/
def accepted (ss : List (Strategy κ)) : List (Strategy κ) := (ss.foldl enter (empty, [])).2

theorem registered_of_ok {ss : List (Strategy κ)} {s : Strategy κ} {r : Registry κ}
    (h : (registered ss).register s = .ok r) :
    registered (ss ++ [s]) = r ∧ accepted (ss ++ [s]) = accepted ss ++ [s] := by
  rw [registered] at h
  simp [registered, accepted, enter, h]

theorem registered_of_error {ss : List (Strategy κ)} {s : Strategy κ} {e : RegistryError}
    (h : (registered ss).register s = .error e) :
    registered (ss ++ [s]) = registered ss ∧ accepted (ss ++ [s]) = accepted ss := by
  rw [registered] at h
  simp [registered, accepted, enter, h]

theorem sound_registered (ss : List (Strategy κ)) : (registered ss).Sound := by
  induction ss using List.reverseRecOn with
  | nil => exact sound_empty
  | append_singleton ss s ih =>
    cases h : (registered ss).register s with
    | ok r =>
      rw [(registered_of_ok h).1]
      exact ih.register h
    | error e =>
      rw [(registered_of_error h).1]
      exact ih

/-- After any registrations, what the registry shows is made up of the accepted strategies. -/
theorem tallies_registered (ss : List (Strategy κ)) : (registered ss).Tallies (accepted ss) := by
  induction ss using List.reverseRecOn with
  | nil => exact tallies_empty
  | append_singleton ss s ih =>
    cases h : (registered ss).register s with
    | ok r =>
      rw [(registered_of_ok h).1, (registered_of_ok h).2]
      exact ih.register h
    | error e =>
      rw [(registered_of_error h).1, (registered_of_error h).2]
      exact ih

/-- **Two lists that agree.** After any registrations, the next one is accepted exactly if its
identifier was not accepted before and its confidence lies between 0 and 1, and a refused one
changes nothing. The strategies are the accepted ones in their order, no two with one identifier;
for a rule they are listed as often as they name it; the rules are listed in the order in which they
were first named; and whatever is listed for a rule is found by its identifier. -/
theorem registrations_tally (ss : List (Strategy κ)) :
    (∀ s, (∃ r, (registered ss).register s = .ok r ∧ registered (ss ++ [s]) = r ∧
        accepted (ss ++ [s]) = accepted ss ++ [s]) ↔
      s.id ∉ (accepted ss).map (·.id) ∧ 0.0 ≤ s.confidence ∧ s.confidence ≤ 1.0) ∧
    (∀ s e, (registered ss).register s = .error e →
      registered (ss ++ [s]) = registered ss ∧ accepted (ss ++ [s]) = accepted ss) ∧
    (registered ss).strategies = accepted ss ∧
    (registered ss).size = (accepted ss).length ∧
    ((accepted ss).map (·.id)).Nodup ∧
    (∀ rule, (registered ss).forRule rule =
      (accepted ss).flatMap fun s => List.replicate (s.rules.count rule) s) ∧
    (registered ss).rules = ((accepted ss).flatMap (·.rules)).eraseDups ∧
    ∀ rule, ∀ s ∈ (registered ss).forRule rule, (registered ss).get? s.id = some s := by
  have hsound := sound_registered ss
  have htallies := tallies_registered ss
  have hdistinct := hsound.distinct
  rw [htallies.strategies_eq] at hdistinct
  refine ⟨fun s => ?_, fun s e => registered_of_error, htallies.strategies_eq,
    congrArg List.length htallies.strategies_eq, hdistinct, htallies.forRule_eq, htallies.rules_eq,
    fun rule s hs => hsound.get?_id (hsound.mem_of_listed hs)⟩
  constructor
  · rintro ⟨r, hr, -⟩
    rw [← htallies.strategies_eq]
    exact (register_eq_ok_iff.mp hr).1
  · intro hnew
    rw [← htallies.strategies_eq] at hnew
    have hr := register_eq_ok_iff.mpr ⟨hnew, rfl⟩
    exact ⟨_, hr, registered_of_ok hr⟩

/-- A confidence that is not a number is refused. -/
example :
    let s : Strategy Float := Strategy.builtin "a" .pruneImports "A" ["r"] (0.0 / 0.0) .simple ""
    (registered [s]).size = 0 := by
  decide +kernel

end Mend.Registry

import Mathlib.Algebra.BigOperators.Field
import Mathlib.Data.List.DropRight
import Mathlib.Data.List.GetD
import Mathlib.Tactic.Ring
import Mend.Proofs.Store

/-!
# What outcomes come to

Experience is a ledger: what it shows of a strategy and a rule follows from their own outcomes since
the last reset, in order, and from the confidence that came with the first of them. Outcomes of
others do not matter, and neither do the confidences that came with later ones.

* `sinceReset`, `outcomes`: the updates that count, and those of them that are about one key.
* `get?_updates`: the record of a key is what its own outcomes come to, for all confidences.
* `weighted_concat`, `replay_eq`: among rational numbers, a confidence is a sum in which every
  outcome weighs half of the one behind it.
* `Shows`, `shows_updates`: what experience shows after updates, however it is asked.
* `Store.live_behind`: a store in memory is experience after the updates among its calls.
* `outcomes_settle`: all of this together, and what follows for the confidences.
-/

namespace Mend.Experience

/-! ## Updates -/

/-- One outcome: whether it was a success, the confidence to start from, and the moment. -/
structure Outcome (κ : Type) where
  success : Bool
  base : κ
  now : Instant

/-- What changes experience. -/
inductive Update (κ : Type)
  | record (strategy rule : String) (o : Outcome κ)
  | reset

namespace Update

variable {κ : Type}

/-- The strategy and the rule of an outcome that is recorded. -/
def key? : Update κ → Option (String × String)
  | record strategy rule _ => some (strategy, rule)
  | reset => none

/-- The outcome, if it is one of this strategy on this rule. -/
def outcome? (strategy rule : String) : Update κ → Option (Outcome κ)
  | record s r o => if (s, r) = (strategy, rule) then some o else none
  | reset => none

/-- The updates behind the last reset. -/
def sinceReset (us : List (Update κ)) : List (Update κ) := us.rtakeWhile (·.key?.isSome)

/-- The outcomes of a strategy on a rule since the last reset, in order. -/
def outcomes (strategy rule : String) (us : List (Update κ)) : List (Outcome κ) :=
  (sinceReset us).filterMap (outcome? strategy rule)

/-- The strategies and rules of which outcomes were recorded since the last reset. -/
def keys (us : List (Update κ)) : List (String × String) := (sinceReset us).filterMap key?

variable {strategy rule s r : String} {us later : List (Update κ)} {o : Outcome κ}

@[simp] theorem sinceReset_record :
    sinceReset (us ++ [record strategy rule o]) = sinceReset us ++ [record strategy rule o] :=
  List.rtakeWhile_concat_pos _ _ _ rfl

@[simp] theorem sinceReset_reset : sinceReset (us ++ [reset]) = [] :=
  List.rtakeWhile_concat_neg _ _ _ (by simp [key?])

/-- As long as nothing is reset, updates add to those before. -/
theorem sinceReset_append (h : reset ∉ later) :
    sinceReset (us ++ later) = sinceReset us ++ later := by
  induction later using List.reverseRecOn with
  | nil => simp
  | append_singleton later u ih =>
    rw [List.mem_append, not_or, List.mem_singleton] at h
    cases u with
    | record s r o => rw [← List.append_assoc, sinceReset_record, ih h.1, List.append_assoc]
    | reset => exact absurd rfl h.2

/-- A reset takes away what was before it. -/
theorem sinceReset_append_of_mem (h : reset ∈ later) :
    sinceReset (us ++ later) = sinceReset later := by
  induction later using List.reverseRecOn with
  | nil => exact absurd h List.not_mem_nil
  | append_singleton later u ih =>
    rw [← List.append_assoc]
    cases u with
    | record s r o =>
      have h : reset ∈ later := by simpa using h
      rw [sinceReset_record, sinceReset_record, ih h]
    | reset => rw [sinceReset_reset, sinceReset_reset]

theorem outcomes_append (h : reset ∉ later) :
    outcomes strategy rule (us ++ later) =
      outcomes strategy rule us ++ later.filterMap (outcome? strategy rule) := by
  rw [outcomes, sinceReset_append h, List.filterMap_append, outcomes]

@[simp] theorem outcomes_reset : outcomes strategy rule (us ++ [reset]) = [] := by
  rw [outcomes, sinceReset_reset, List.filterMap_nil]

@[simp] theorem outcomes_record_self :
    outcomes strategy rule (us ++ [record strategy rule o]) =
      outcomes strategy rule us ++ [o] := by
  rw [outcomes_append (by simp)]
  simp [outcome?]

theorem outcomes_record_of_ne (h : (s, r) ≠ (strategy, rule)) :
    outcomes strategy rule (us ++ [record s r o]) = outcomes strategy rule us := by
  rw [outcomes_append (by simp)]
  simpa [outcome?] using h

/-- A key has outcomes exactly if it is among those of which outcomes were recorded. -/
theorem mem_keys_iff : (strategy, rule) ∈ keys us ↔ outcomes strategy rule us ≠ [] := by
  rw [outcomes, keys, Ne, List.filterMap_eq_nil_iff, List.mem_filterMap]
  constructor
  · rintro ⟨u, hu, hkey⟩ h
    have hnone := h u hu
    cases u with
    | record s r o =>
      rw [outcome?, if_pos (Option.some.inj hkey)] at hnone
      cases hnone
    | reset => cases hkey
  · intro h
    push Not at h
    obtain ⟨u, hu, hsome⟩ := h
    refine ⟨u, hu, ?_⟩
    cases u with
    | record s r o =>
      rw [outcome?] at hsome
      split at hsome
      · next hkey => rw [key?, hkey]
      · exact absurd rfl hsome
    | reset => exact absurd rfl hsome

end Update

/-! ## What outcomes come to -/

section Replay

variable {κ : Type} [Confidence κ]

/-- Experience after an update. -/
def update (e : Experience κ) : Update κ → Experience κ
  | .record strategy rule o => e.add strategy rule o.success o.base o.now
  | .reset => .empty

/-- Experience after updates, one after the other. -/
def updates (e : Experience κ) (us : List (Update κ)) : Experience κ := us.foldl update e

theorem updates_concat (e : Experience κ) (us : List (Update κ)) (u : Update κ) :
    e.updates (us ++ [u]) = (e.updates us).update u := by
  rw [updates, List.foldl_append]
  rfl

/-- The record that outcomes come to, one after the other; there is none without outcomes. -/
def replay (strategy rule : String) (os : List (Outcome κ)) : Option (Record κ) :=
  os.foldl (fun old o =>
    some ((old.getD { strategy, rule, confidence := o.base, updated := o.now }).after
      o.success o.now)) none

theorem replay_concat (strategy rule : String) (os : List (Outcome κ)) (o : Outcome κ) :
    replay strategy rule (os ++ [o]) =
      some (((replay strategy rule os).getD
        { strategy, rule, confidence := o.base, updated := o.now }).after o.success o.now) := by
  rw [replay, List.foldl_append]
  rfl

/-- **The record of a key is what its own outcomes since the last reset come to.** -/
theorem get?_updates (us : List (Update κ)) (strategy rule : String) :
    (empty.updates us).get? strategy rule =
      replay strategy rule (Update.outcomes strategy rule us) := by
  induction us using List.reverseRecOn with
  | nil => rfl
  | append_singleton us u ih =>
    rw [updates_concat]
    cases u with
    | reset =>
      rw [Update.outcomes_reset]
      rfl
    | record s r o =>
      rw [update, get?_add]
      by_cases hkey : (s, r) = (strategy, rule)
      · obtain ⟨rfl, rfl⟩ := Prod.mk.inj hkey
        rw [if_pos rfl, Update.outcomes_record_self, replay_concat, ← ih]
        rfl
      · rw [if_neg hkey, Update.outcomes_record_of_ne hkey, ih]

theorem nodup_updates (us : List (Update κ)) :
    ((empty.updates us).records.map Record.key).Nodup := by
  induction us using List.reverseRecOn with
  | nil => exact List.nodup_nil
  | append_singleton us u ih =>
    rw [updates_concat]
    cases u with
    | reset => exact List.nodup_nil
    | record s r o => exact Record.nodup_put _ ih

end Replay

/-! ## Confidences in closed form -/

/-- An outcome as a number. -/
def share (success : Bool) : Rat := if success then 1 else 0

/-- The confidence that outcomes come to from a base: the last outcome weighs 1/2, every other one
half of the one behind it, and the base as much as the first outcome. -/
def weighted (base : Rat) (successes : List Bool) : Rat :=
  base / 2 ^ successes.length +
    ∑ i ∈ Finset.range successes.length,
      share (successes.getD i false) / 2 ^ (successes.length - i)

@[simp] theorem weighted_nil (base : Rat) : weighted base [] = base := by
  simp [weighted]

/-- **An outcome is blended with what the outcomes before it come to.** -/
theorem weighted_concat (base : Rat) (bs : List Bool) (b : Bool) :
    weighted base (bs ++ [b]) = Record.blend (weighted base bs) b := by
  have hearlier : ∀ i ∈ Finset.range bs.length,
      share ((bs ++ [b]).getD i false) / 2 ^ (bs.length + 1 - i) =
        share (bs.getD i false) / 2 ^ (bs.length - i) / 2 := by
    intro i hi
    have hi : i < bs.length := Finset.mem_range.mp hi
    have hexponent : bs.length + 1 - i = bs.length - i + 1 := by omega
    rw [List.getD_append _ _ _ _ hi, hexponent, pow_succ, div_div]
  have hlast : share ((bs ++ [b]).getD bs.length false) / 2 ^ (bs.length + 1 - bs.length) =
      share b / 2 := by
    simp
  rw [weighted, weighted, Record.blend_eq, List.length_append, List.length_singleton,
    Finset.sum_range_succ, Finset.sum_congr rfl hearlier, hlast, ← Finset.sum_div, share, pow_succ]
  ring

/-- The record that outcomes come to, in closed form. -/
def settled (strategy rule : String) : List (Outcome Rat) → Option (Record Rat)
  | [] => none
  | first :: os => some {
    strategy, rule
    attempts := (first :: os).length
    successes := (first :: os).countP (·.success)
    confidence := weighted first.base ((first :: os).map (·.success))
    updated := (os.getLastD first).now }

theorem exists_settled (strategy rule : String) {os : List (Outcome Rat)} {first : Outcome Rat}
    (h : os.head? = some first) :
    ∃ x, settled strategy rule os = some x ∧
      x.confidence = weighted first.base (os.map (·.success)) := by
  cases os with
  | nil => cases h
  | cons o os =>
    obtain rfl := Option.some.inj h
    exact ⟨_, rfl, rfl⟩

theorem settled_eq_none_iff {strategy rule : String} {os : List (Outcome Rat)} :
    settled strategy rule os = none ↔ os = [] := by
  cases os <;> simp [settled]

theorem settled_concat (strategy rule : String) (os : List (Outcome Rat)) (o : Outcome Rat) :
    settled strategy rule (os ++ [o]) =
      some (((settled strategy rule os).getD
        { strategy, rule, confidence := o.base, updated := o.now }).after o.success o.now) := by
  cases os with
  | nil =>
    have hconfidence : weighted o.base [o.success] = Record.blend o.base o.success := by
      simpa using weighted_concat o.base [] o.success
    cases hsuccess : o.success <;> simp_all [settled, Record.after]
  | cons first os =>
    have hsuccesses : (first :: (os ++ [o])).countP (·.success) =
        if o.success then (first :: os).countP (·.success) + 1
        else (first :: os).countP (·.success) := by
      rw [← List.cons_append, List.countP_append, List.countP_singleton]
      split <;> rfl
    have hconfidence : weighted first.base ((first :: (os ++ [o])).map (·.success)) =
        Record.blend (weighted first.base ((first :: os).map (·.success))) o.success := by
      rw [← List.cons_append, List.map_append]
      exact weighted_concat _ _ _
    rw [List.cons_append, settled, hsuccesses, hconfidence]
    simp [settled, Record.after]

/-- **Among rational numbers, outcomes come to a record in closed form.** -/
theorem replay_eq (strategy rule : String) (os : List (Outcome Rat)) :
    replay strategy rule os = settled strategy rule os := by
  induction os using List.reverseRecOn with
  | nil => rfl
  | append_singleton os o ih => rw [replay_concat, settled_concat, ih]

/-- From a base between 0 and 1, outcomes come to a confidence between 0 and 1. -/
theorem weighted_bounded {base : Rat} (h : 0 ≤ base ∧ base ≤ 1) (bs : List Bool) :
    0 ≤ weighted base bs ∧ weighted base bs ≤ 1 := by
  induction bs using List.reverseRecOn with
  | nil => rwa [weighted_nil]
  | append_singleton bs b ih =>
    rw [weighted_concat]
    exact Record.blend_bounded ih b

/-- Outcomes that are all alike take the distance to what they stand for down by half each. -/
theorem weighted_alike (base : Rat) (bs : List Bool) {b : Bool} (k : Nat) :
    share b - weighted base (bs ++ List.replicate k b) =
      (share b - weighted base bs) / 2 ^ k := by
  induction k with
  | zero => simp
  | succ k ih =>
    rw [List.replicate_succ', ← List.append_assoc, weighted_concat, Record.blend_eq, pow_succ,
      ← div_div, ← ih, share]
    ring

/-- The last outcome puts the confidence on its side of 1/2. -/
theorem weighted_side {base : Rat} (h : 0 ≤ base ∧ base ≤ 1) (bs : List Bool) (b : Bool) :
    if b then 1 / 2 ≤ weighted base (bs ++ [b]) else weighted base (bs ++ [b]) ≤ 1 / 2 := by
  obtain ⟨hlow, hhigh⟩ := weighted_bounded h bs
  rw [weighted_concat]
  cases b
  · exact Record.blend_false_le hhigh
  · exact Record.le_blend_true_half hlow

/-! ## What experience shows -/

/-- What experience shows of updates: for every key with outcomes since the last reset there is one
record, the one in closed form, and there are no others. -/
structure Shows (e : Experience Rat) (us : List (Update Rat)) : Prop where
  get : ∀ strategy rule,
    e.get? strategy rule = settled strategy rule (Update.outcomes strategy rule us)
  present : ∀ strategy rule,
    (e.get? strategy rule).isSome ↔ 0 < (Update.outcomes strategy rule us).length
  snapshot : ∀ strategy rule, e.snapshot.get? strategy rule =
    (settled strategy rule (Update.outcomes strategy rule us)).map (·.confidence)
  size : e.size = (Update.keys us).toFinset.card
  sorted : e.sorted.Pairwise fun a b => toLex (a.strategy, a.rule) < toLex (b.strategy, b.rule)
  mem_sorted : ∀ x, x ∈ e.sorted ↔
    settled x.strategy x.rule (Update.outcomes x.strategy x.rule us) = some x

/-- **Experience shows the outcomes of every key**, whatever comes between them. -/
theorem shows_updates {us us' : List (Update Rat)}
    (h : ∀ strategy rule, Update.outcomes strategy rule us' = Update.outcomes strategy rule us) :
    (empty.updates us').Shows us := by
  have hget : ∀ strategy rule, (empty.updates us').get? strategy rule =
      settled strategy rule (Update.outcomes strategy rule us) := by
    intro strategy rule
    rw [get?_updates, replay_eq, h]
  have hpresent : ∀ strategy rule, ((empty.updates us').get? strategy rule).isSome ↔
      Update.outcomes strategy rule us ≠ [] := by
    intro strategy rule
    rw [hget, Option.isSome_iff_ne_none, Ne, settled_eq_none_iff]
  have hkeys := nodup_updates us'
  constructor
  case get => exact hget
  case present =>
    intro strategy rule
    rw [hpresent, List.length_pos_iff]
  case snapshot =>
    intro strategy rule
    rw [get?_snapshot, hget]
  case size =>
    have hsame : ((empty.updates us').records.map Record.key).toFinset =
        (Update.keys us).toFinset := by
      ext ⟨strategy, rule⟩
      rw [List.mem_toFinset, List.mem_toFinset, Update.mem_keys_iff, ← hpresent, get?_eq_find?,
        List.find?_isSome, List.mem_map]
      simp
    rw [← hsame, List.toFinset_card_of_nodup hkeys, List.length_map, Experience.size]
  case sorted => exact pairwise_sorted hkeys
  case mem_sorted =>
    intro x
    rw [← hget, get?_eq_find?, Record.find?_eq_some_iff hkeys, Experience.sorted,
      (List.mergeSort_perm _ _).mem_iff]
    exact (and_iff_left rfl).symm

/-- Outcomes of different keys can change places. -/
theorem Update.outcomes_swap {κ : Type} {s r s' r' : String} (hkeys : (s, r) ≠ (s', r'))
    (o o' : Outcome κ) (us vs : List (Update κ)) (strategy rule : String) :
    outcomes strategy rule (us ++ [record s' r' o', record s r o] ++ vs) =
      outcomes strategy rule (us ++ [record s r o, record s' r' o'] ++ vs) := by
  by_cases hreset : reset ∈ vs
  · rw [outcomes, outcomes, sinceReset_append_of_mem hreset, sinceReset_append_of_mem hreset]
  · have hswap : [record s' r' o', record s r o].filterMap (outcome? strategy rule) =
        [record s r o, record s' r' o'].filterMap (outcome? strategy rule) := by
      by_cases h : (s, r) = (strategy, rule)
      · have h' : (s', r') ≠ (strategy, rule) := fun h' => hkeys (h.trans h'.symm)
        simp [outcome?, h, h']
      · simp [List.filterMap_cons, outcome?, h]
    rw [outcomes_append hreset, outcomes_append hreset, outcomes_append (by simp),
      outcomes_append (by simp), hswap]

/-- From a base between 0 and 1, a key with outcomes has a confidence between 0 and 1, on the side
of its last outcome. -/
theorem exists_get?_updates {us : List (Update Rat)} {strategy rule : String}
    {first last : Outcome Rat}
    (hfirst : (Update.outcomes strategy rule us).head? = some first)
    (hlast : (Update.outcomes strategy rule us).getLast? = some last)
    (hbase : 0 ≤ first.base ∧ first.base ≤ 1) :
    ∃ x, (empty.updates us).get? strategy rule = some x ∧
      0 ≤ x.confidence ∧ x.confidence ≤ 1 ∧
      if last.success then 1 / 2 ≤ x.confidence else x.confidence ≤ 1 / 2 := by
  obtain ⟨x, hx, hconfidence⟩ := exists_settled strategy rule hfirst
  obtain ⟨earlier, hearlier⟩ := List.getLast?_eq_some_iff.mp hlast
  obtain ⟨hlow, hhigh⟩ :=
    weighted_bounded hbase ((Update.outcomes strategy rule us).map (·.success))
  have hside := weighted_side hbase (earlier.map (·.success)) last.success
  rw [← List.map_singleton, ← List.map_append, ← hearlier] at hside
  refine ⟨x, ?_, hconfidence ▸ hlow, hconfidence ▸ hhigh, hconfidence ▸ hside⟩
  rw [get?_updates, replay_eq, hx]

/-- Outcomes of a key that are all alike take the distance of its confidence to what they stand for
down by half each. -/
theorem exists_get?_updates_alike {us later : List (Update Rat)} {strategy rule : String} {b : Bool}
    {x : Record Rat} (hx : (empty.updates us).get? strategy rule = some x)
    (hreset : Update.reset ∉ later)
    (halike : ∀ o ∈ later.filterMap (Update.outcome? strategy rule), o.success = b) :
    ∃ x', (empty.updates (us ++ later)).get? strategy rule = some x' ∧
      share b - x'.confidence = (share b - x.confidence) /
        2 ^ (later.filterMap (Update.outcome? strategy rule)).length := by
  set own := later.filterMap (Update.outcome? strategy rule) with hown
  have hlater : Update.outcomes strategy rule (us ++ later) =
      Update.outcomes strategy rule us ++ own := Update.outcomes_append hreset
  have hreplicate : own.map (·.success) = List.replicate own.length b := by
    rw [List.eq_replicate_iff, List.length_map]
    exact ⟨rfl, List.forall_mem_map.mpr halike⟩
  rw [get?_updates, replay_eq] at hx
  obtain ⟨first, hfirst⟩ : ∃ first, (Update.outcomes strategy rule us).head? = some first := by
    cases hos : Update.outcomes strategy rule us with
    | nil => rw [hos] at hx; cases hx
    | cons first os => exact ⟨first, rfl⟩
  have hfirst' : (Update.outcomes strategy rule us ++ own).head? = some first := by
    rw [List.head?_append, hfirst, Option.some_or]
  obtain ⟨y, hy, hbefore⟩ := exists_settled strategy rule hfirst
  obtain rfl := Option.some.inj (hx.symm.trans hy)
  obtain ⟨x', hx', hafter⟩ := exists_settled strategy rule hfirst'
  refine ⟨x', ?_, ?_⟩
  · rw [get?_updates, replay_eq, hlater, hx']
  · rw [hafter, hbefore, List.map_append, hreplicate, weighted_alike]

end Mend.Experience

/-! ## Stores -/

namespace Mend.Store

/-- What a call changes of the experience in memory. -/
def Call.update? : Call → Option (Experience.Update Float)
  | record strategy rule success base now => some (.record strategy rule ⟨success, base, now⟩)
  | reset => some .reset
  | get _ _ => none
  | entries => none
  | snapshot => none
  | size => none

/-- The store behind calls, one after the other. -/
def behind (s : Store) (cs : List Call) : Store := cs.foldl (fun s c => (s.answer c).2) s

/-- **A store in memory is experience after the updates among its calls**, also where saving
fails. -/
theorem live_behind (s : Store) (cs : List Call) :
    (s.behind cs).live = s.live.updates (cs.filterMap Call.update?) := by
  induction cs generalizing s with
  | nil => rfl
  | cons c cs ih =>
    refine (ih (s.answer c).2).trans ?_
    cases c with
    | record strategy rule success base now =>
      have hlive : (s.record strategy rule success base now).2.live =
          s.live.add strategy rule success base now := by
        unfold Store.record save
        dsimp only
        cases s.saved with
        | none => rfl
        | some rows =>
          dsimp only
          split <;> rename_i hsave <;> split at hsave <;> cases hsave <;> rfl
      simp only [answer, hlive]
      rfl
    | reset => rfl
    | get strategy rule => rfl
    | entries => rfl
    | snapshot => rfl
    | size => rfl

open Experience in
/-- **Outcomes settle what a store knows**: its memory is experience after the updates among its
calls, and experience shows, for every key, the own outcomes of that key since the last reset, in
closed form and in whatever order outcomes of different keys come. A confidence stays between 0 and
1, on the side of the last outcome, and outcomes that are alike take its distance to what they
stand for down by half each. -/
theorem outcomes_settle :
    (∀ (s : Store) (cs : List Call),
      (s.behind cs).live = s.live.updates (cs.filterMap Call.update?)) ∧
    (∀ us : List (Update Rat), (empty.updates us).Shows us) ∧
    (∀ (us vs : List (Update Rat)) (s r s' r' : String) (o o' : Outcome Rat), (s, r) ≠ (s', r') →
      (empty.updates (us ++ [.record s' r' o', .record s r o] ++ vs)).Shows
        (us ++ [.record s r o, .record s' r' o'] ++ vs)) ∧
    (∀ (us : List (Update Rat)) (s r : String) (first last : Outcome Rat),
      (Update.outcomes s r us).head? = some first →
      (Update.outcomes s r us).getLast? = some last → 0 ≤ first.base ∧ first.base ≤ 1 →
      ∃ x, (empty.updates us).get? s r = some x ∧ 0 ≤ x.confidence ∧ x.confidence ≤ 1 ∧
        if last.success then 1 / 2 ≤ x.confidence else x.confidence ≤ 1 / 2) ∧
    (∀ (us later : List (Update Rat)) (s r : String) (b : Bool) (x : Record Rat),
      (empty.updates us).get? s r = some x → .reset ∉ later →
      (∀ o ∈ later.filterMap (Update.outcome? s r), o.success = b) →
      ∃ x', (empty.updates (us ++ later)).get? s r = some x' ∧
        share b - x'.confidence =
          (share b - x.confidence) / 2 ^ (later.filterMap (Update.outcome? s r)).length) :=
  ⟨live_behind, fun _ => shows_updates fun _ _ => rfl,
    fun us vs _ _ _ _ o o' hkeys => shows_updates (Update.outcomes_swap hkeys o o' us vs),
    fun _ _ _ _ _ => exists_get?_updates, fun _ _ _ _ _ _ => exists_get?_updates_alike⟩

open Experience in
/-- A reset, an outcome of another rule and a base that comes too late: the confidence starts from
1/2 behind the reset, is 5/8 after a failure and a success, and misses 1 by a fourth of 3/8 after
two more successes. -/
theorem outcomes_settle_sample :
    let now : Instant := ⟨1767225600000⟩
    let failed : Update Rat := .record "replace_console_log" "console_log" ⟨false, 1 / 2, now⟩
    let other : Update Rat := .record "externalize_secrets" "secrets" ⟨true, 0, now⟩
    let late : Update Rat := .record "replace_console_log" "console_log" ⟨true, 1 / 4, now⟩
    let us : List (Update Rat) := [late, .reset, failed, other, late]
    (empty.updates ([late, .reset] ++ [other, failed] ++ [late])).Shows us ∧
    (∃ x, (empty.updates us).get? "replace_console_log" "console_log" = some x ∧
      x.confidence = 5 / 8 ∧ 1 / 2 ≤ x.confidence ∧ x.confidence ≤ 1) ∧
    ∃ x', (empty.updates (us ++ [late, other, late])).get? "replace_console_log" "console_log" =
      some x' ∧ 1 - x'.confidence = 3 / 8 / 4 := by
  intro now failed other late us
  obtain ⟨-, hshows, hswap, hbounds, halike⟩ := outcomes_settle
  obtain ⟨x, hx, -, hhigh, hside⟩ := hbounds us "replace_console_log" "console_log"
    ⟨false, 1 / 2, now⟩ ⟨true, 1 / 4, now⟩ rfl rfl (by norm_num)
  have hconfidence : x.confidence = 5 / 8 := by
    have hsettled := (hshows us).get "replace_console_log" "console_log"
    rw [hx] at hsettled
    rw [Option.some.inj hsettled]
    decide +kernel
  obtain ⟨x', hx', hdistance⟩ := halike us [late, other, late] "replace_console_log" "console_log"
    true x hx (by simp [late, other]) (by simp [late, other, Update.outcome?])
  refine ⟨hswap _ _ _ _ _ _ _ _ (by decide), ⟨x, hx, hconfidence, hside, hhigh⟩, x', hx', ?_⟩
  rw [hconfidence] at hdistance
  refine hdistance.trans ?_
  decide +kernel

end Mend.Store

import Mathlib.Algebra.Ring.Nat
import Mathlib.Tactic.Linarith
import Mathlib.Tactic.NormNum
import Mend.Experience

/-!
# What is recorded and what is read back

* `Experience.get?_add`: an outcome changes the record of its strategy and its rule and no other.
* `Experience.get?_snapshot`: a snapshot holds the confidences of the records.
* `Experience.attempts_add`, `Experience.successes_add`: an outcome is counted once.
-/

namespace Mend

variable {κ : Type}

/-! ## Records by their keys -/

namespace Record

/-- A record is found by its key once it was put. -/
theorem find?_put (r : Record κ) (k : String × String) (rs : List (Record κ)) :
    (put r rs).find? (·.key = k) = if r.key = k then some r else rs.find? (·.key = k) := by
  induction rs with
  | nil => simp [put, List.find?_singleton]
  | cons x rs ih =>
    unfold put
    by_cases hx : x.key = r.key
    · by_cases hr : r.key = k
      · simp [hx, hr]
      · simp [hx, hr]
    · by_cases hk : x.key = k
      · have hr : r.key ≠ k := fun hr => hx (hk.trans hr.symm)
        rw [if_neg hx, if_neg hr, List.find?_cons_of_pos (by simpa using hk),
          List.find?_cons_of_pos (by simpa using hk)]
      · simp [hx, hk, ih]

/-- A record that is put counts in the place of the one with its key. -/
theorem sum_put (f : Record κ → Nat) (r : Record κ) (rs : List (Record κ)) :
    ((put r rs).map f).sum + ((rs.find? (·.key = r.key)).map f).getD 0 =
      (rs.map f).sum + f r := by
  induction rs with
  | nil => simp [put]
  | cons x rs ih =>
    unfold put
    by_cases hx : x.key = r.key
    · simp [hx]
      omega
    · simp [hx]
      omega

@[simp] theorem key_after [Confidence κ] (r : Record κ) (success : Bool) (now : Instant) :
    (r.after success now).key = r.key := rfl

/-! ### Outcomes among rational numbers -/

theorem blend_eq (c : Rat) (success : Bool) :
    blend c success = (c + if success then 1 else 0) / 2 := by
  unfold blend
  cases success <;> norm_num

theorem blend_bounded {c : Rat} (h : 0 ≤ c ∧ c ≤ 1) (success : Bool) :
    0 ≤ blend c success ∧ blend c success ≤ 1 := by
  obtain ⟨hlow, hhigh⟩ := h
  rw [blend_eq]
  cases success
  · simp only [Bool.false_eq_true, if_false]
    constructor <;> linarith
  · simp only [if_true]
    constructor <;> linarith

/-- A failure takes every confidence to 1/2 or less. -/
theorem blend_false_le {c : Rat} (h : c ≤ 1) : blend c false ≤ 1 / 2 := by
  rw [blend_eq]
  simp only [Bool.false_eq_true, if_false]
  linarith

/-- A success takes no confidence down. -/
theorem le_blend_true {c : Rat} (h : c ≤ 1) : c ≤ blend c true := by
  rw [blend_eq]
  simp only [if_true]
  linarith

theorem blend_true_le {c : Rat} (h : c ≤ 1) : blend c true ≤ 1 := by
  rw [blend_eq]
  simp only [if_true]
  linarith

/-- A success takes every confidence to 1/2 or more. -/
theorem le_blend_true_half {c : Rat} (h : 0 ≤ c) : 1 / 2 ≤ blend c true := by
  rw [blend_eq]
  simp only [if_true]
  linarith

end Record

/-! ## Experience -/

namespace Experience

variable {e : Experience κ} {strategy rule : String} {success : Bool} {base : κ} {now : Instant}

theorem get?_eq_find? (e : Experience κ) (strategy rule : String) :
    e.get? strategy rule = e.records.find? (·.key = (strategy, rule)) := by
  unfold get?
  congr 1
  funext r
  rw [Bool.eq_iff_iff]
  simp [Record.key]

theorem key_of_get? {r : Record κ} (h : e.get? strategy rule = some r) :
    r.key = (strategy, rule) := by
  rw [get?_eq_find?] at h
  simpa using List.find?_some h

/-- A snapshot holds the confidences of the records. -/
theorem get?_snapshot (e : Experience κ) (strategy rule : String) :
    e.snapshot.get? strategy rule = (e.get? strategy rule).map (·.confidence) := by
  rw [get?_eq_find?, snapshot, Snapshot.get?]
  induction e.records with
  | nil => rfl
  | cons r rs ih =>
    rw [List.map_cons, List.lookup_cons, List.find?_cons, ih]
    by_cases hkey : r.key = (strategy, rule)
    · simp [hkey]
    · have hlookup : ((strategy, rule) == r.key) = false := beq_false_of_ne (Ne.symm hkey)
      rw [hlookup, decide_eq_false hkey]

variable [Confidence κ]

theorem key_next : (e.next strategy rule success base now).key = (strategy, rule) := by
  unfold next
  rw [Record.key_after]
  cases h : e.get? strategy rule with
  | none => rfl
  | some r => exact key_of_get? h

/-- An outcome is blended with the confidence of the record, or with the base if there is none. -/
theorem confidence_next :
    (e.next strategy rule success base now).confidence =
      Record.blend (((e.get? strategy rule).map (·.confidence)).getD base) success := by
  unfold next
  cases e.get? strategy rule <;> rfl

/-- **An outcome changes the record of its strategy and its rule and no other.** -/
theorem get?_add (e : Experience κ) (strategy' rule' : String) :
    (e.add strategy rule success base now).get? strategy' rule' =
      if (strategy, rule) = (strategy', rule') then some (e.next strategy rule success base now)
      else e.get? strategy' rule' := by
  rw [get?_eq_find?, get?_eq_find?, add, Record.find?_put, key_next]

/-- The attempts that were recorded. -/
def attempts (e : Experience κ) : Nat := (e.records.map (·.attempts)).sum

/-- The successes that were recorded. -/
def successes (e : Experience κ) : Nat := (e.records.map (·.successes)).sum

theorem sum_add (f : Record κ → Nat) (e : Experience κ) (strategy rule : String) (success : Bool)
    (base : κ) (now : Instant) :
    ((e.add strategy rule success base now).records.map f).sum +
        ((e.get? strategy rule).map f).getD 0 =
      (e.records.map f).sum + f (e.next strategy rule success base now) := by
  have hkey : (e.next strategy rule success base now).key = (strategy, rule) := key_next
  rw [get?_eq_find?, ← hkey]
  exact Record.sum_put f (e.next strategy rule success base now) e.records

@[simp] theorem attempts_add :
    (e.add strategy rule success base now).attempts = e.attempts + 1 := by
  have hsum := sum_add (·.attempts) e strategy rule success base now
  unfold attempts
  cases h : e.get? strategy rule with
  | none =>
    simp only [next, h, Record.after, Option.map_none, Option.getD_none] at hsum
    exact hsum
  | some r =>
    simp only [next, h, Record.after, Option.map_some, Option.getD_some] at hsum
    omega

@[simp] theorem successes_add :
    (e.add strategy rule success base now).successes = e.successes + success.toNat := by
  have hsum := sum_add (·.successes) e strategy rule success base now
  unfold successes
  cases h : e.get? strategy rule with
  | none => cases success <;> simp_all [next, Record.after]
  | some r =>
    cases success
    · simp only [next, h, Record.after, Option.map_some, Option.getD_some] at hsum
      simpa using hsum
    · simp only [next, h, Record.after, Option.map_some, Option.getD_some, if_true] at hsum
      simp only [Bool.toNat_true]
      omega

end Experience

end Mend

import Mathlib.Data.List.Forall2
import Mend.Proofs.Store

/-!
# Records that are not saved

A persistent store changes its memory first and its table second. The table refuses a confidence
that is not a number, and then the change in memory stays: it is seen until the store is left, and
is gone when it is opened again.

* `Double.isNaN_half_sum` and `isNaN_blend`: an outcome neither makes nor mends such a confidence.
* `Backed`: the rows of a store are those of its records whose confidence is a number.
* `Backed.record`, `Backed.answer`, `Backed.reopened`: calls and openings keep it.
* `record_fails_iff`: when an outcome is refused.
* `Backed.atomic_iff`: an outcome is recorded as a whole or not at all exactly if all confidences in
  memory are numbers afterwards.
* `record_atomic_iff`: the same of every store that calls and openings lead to, and of all that have
  been given numbers only.
-/

namespace Mend

/-! ## Records up to the sign of a zero -/

namespace Record

/-- Whether the confidence of a record is a number. -/
def isNumber (r : Record Float) : Bool := !r.confidence.isNaN

/-- A record as it is read back: a zero has no sign. -/
def unsigned (r : Record Float) : Record Float :=
  { r with confidence := if r.confidence == 0.0 then 0.0 else r.confidence }

/-- Two records say the same. The two zeros are one number, and what is not a number does not equal
itself. -/
structure Equals (a b : Record Float) : Prop where
  key : a.key = b.key
  attempts : a.attempts = b.attempts
  successes : a.successes = b.successes
  confidence : (a.confidence == b.confidence) = true
  updated : a.updated = b.updated

theorem isNumber_iff {r : Record Float} : r.isNumber = true ↔ r.confidence.isNaN = false := by
  unfold isNumber
  rw [Bool.not_eq_true']

theorem equals_unsigned {r : Record Float} (h : r.isNumber = true) : r.Equals r.unsigned where
  key := rfl
  attempts := rfl
  successes := rfl
  updated := rfl
  confidence := by
    unfold unsigned
    dsimp only
    split
    · next hzero => exact hzero
    · exact Double.beq_self (isNumber_iff.mp h)

theorem Equals.map_confidence {r r' : Option (Record Float)} (h : Option.Rel Equals r r') :
    Option.Rel (fun a b => (a == b) = true) (r.map (·.confidence)) (r'.map (·.confidence)) := by
  cases h with
  | none => exact .none
  | some h => exact .some h.confidence

@[simp] theorem isNumber_unsigned (r : Record Float) : r.unsigned.isNumber = r.isNumber := by
  unfold unsigned isNumber
  dsimp only
  split
  · next hzero =>
    rw [Double.isNaN_of_beq hzero]
    rfl
  · rfl

theorem legible_unsigned {r : Record Float} (h : r.updated.HasDate) : r.unsigned.Legible where
  dated := h
  unsigned := by
    unfold Record.unsigned
    dsimp only
    intro hzero
    split
    · rfl
    · next hne =>
      rw [if_neg hne] at hzero
      exact absurd hzero hne

/-- **An outcome neither makes nor mends what is not a number.** -/
theorem isNaN_blend (c : Float) (success : Bool) : (blend c success).isNaN = c.isNaN := by
  refine Double.isNaN_half_sum c ?_
  cases success <;> rfl

end Record

theorem Row.ofRecord_unsigned (r : Record Float) : ofRecord r.unsigned = ofRecord r := by
  unfold ofRecord Record.unsigned
  dsimp only
  congr 1
  split
  · exact if_pos rfl
  · rfl

/-- Records are listed in the same order without the signs of their zeros. -/
theorem Experience.sorted_map_unsigned {e : Experience Float}
    (hkeys : (e.records.map Record.key).Nodup) :
    (⟨e.records.map Record.unsigned⟩ : Experience Float).sorted =
      e.sorted.map Record.unsigned := by
  have hkeys' : ((e.records.map Record.unsigned).map Record.key).Nodup := by
    rwa [List.map_map, show Record.key ∘ Record.unsigned = Record.key from rfl]
  have hsorted := pairwise_sorted (e := ⟨e.records.map Record.unsigned⟩) hkeys'
  refine List.Perm.eq_of_pairwise ?_ hsorted ?_ ?_
  · intro a b _ _ hab hba
    exact absurd hba hab.asymm
  · exact List.pairwise_map.mpr (pairwise_sorted hkeys)
  · exact (List.mergeSort_perm _ _).trans ((List.mergeSort_perm _ _).symm.map _)

namespace Store

/-! ## Stores that calls and openings lead to -/

/-- The clock shows a moment that has a date. -/
def Call.Dated : Call → Prop
  | .record _ _ _ _ now => now.HasDate
  | _ => True

/-- The clock shows dates, and a table gives back the rows that it has. -/
def Event.Dated : Event → Prop
  | .call c => c.Dated
  | .reopening order => ∀ rows, (order rows).Perm rows

/-- The confidence to start from that an outcome comes with. -/
def Event.base? : Event → Option Float
  | .call (.record _ _ _ base _) => some base
  | _ => none

/-- A store after what happens to it. -/
def after (s : Store) : List Event → Except StoreError Store
  | [] => .ok s
  | .call c :: es => (s.answer c).2.after es
  | .reopening order :: es => do
    let s ← s.reopenBy order
    s.after es

/-- Calls that change nothing. -/
def Call.Reads : Call → Prop
  | .record .. | .reset => False
  | _ => True

/-- Two answers to a call that changes nothing say the same. -/
inductive Answer.Equals : Answer → Answer → Prop
  | found {r r' : Option (Record Float)} :
      Option.Rel Record.Equals r r' → Equals (.found r) (.found r')
  | listed {rs rs' : List (Record Float)} :
      List.Forall₂ Record.Equals rs rs' → Equals (.listed rs) (.listed rs')
  | learned {f g : String → String → Option Float} :
      (∀ strategy rule, Option.Rel (fun a b => (a == b) = true) (f strategy rule)
        (g strategy rule)) → Equals (.learned f) (.learned g)
  | counted (n : Nat) : Equals (.counted n) (.counted n)

theorem Answer.Equals.counted_eq {m n : Nat} (h : Equals (.counted m) (.counted n)) : m = n := by
  cases h
  rfl

/-- An outcome is recorded as a whole or not at all: if it is refused the store answers as before,
and in any case a store that is opened again in the same place answers as it does. -/
structure Atomic (before : Store) (result : Except StoreError (Record Float) × Store) : Prop where
  undone : ∀ e, result.1 = .error e → ∀ c : Call, c.Reads →
    (result.2.answer c).1 = (before.answer c).1
  kept : ∀ order : List Row → List Row, (∀ rows, (order rows).Perm rows) →
    ∃ q, result.2.reopenBy order = .ok q ∧
      ∀ c : Call, c.Reads → (result.2.answer c).1.Equals (q.answer c).1

/-- **The rows of a store are those of its records whose confidence is a number.** -/
structure Backed (s : Store) : Prop where
  distinct : (s.live.records.map Record.key).Nodup
  dated : ∀ r ∈ s.live.records, r.updated.HasDate
  saved : ∃ rows, s.saved = some rows ∧
    rows.Perm ((s.live.records.filter Record.isNumber).map Row.ofRecord)

/-- All confidences in memory are numbers. -/
def Numbers (s : Store) : Prop := ∀ r ∈ s.live.records, r.isNumber = true

theorem backed_fresh : Backed fresh where
  distinct := List.nodup_nil
  dated := by simp [fresh]
  saved := ⟨[], rfl, .refl _⟩

/-! ## One outcome -/

/-- The confidence that an outcome is blended with: the one that is known, or the one it comes
with. -/
def start (s : Store) (strategy rule : String) (base : Float) : Float :=
  ((s.live.get? strategy rule).map (·.confidence)).getD base

theorem Numbers.start {s : Store} (h : s.Numbers) (strategy rule : String) {base : Float}
    (hbase : base.isNaN = false) : (s.start strategy rule base).isNaN = false := by
  unfold Store.start
  cases hr : s.live.get? strategy rule with
  | none => exact hbase
  | some r =>
    rw [Experience.get?_eq_find?] at hr
    exact Record.isNumber_iff.mp (h r (List.mem_of_find?_eq_some hr))

section Outcome

variable {s : Store} {strategy rule : String} {success : Bool} {base : Float} {now : Instant}

theorem isNaN_confidence_next : (s.live.next strategy rule success base now).confidence.isNaN =
    (s.start strategy rule base).isNaN := by
  rw [Experience.confidence_next, Record.isNaN_blend]
  rfl

theorem isNumber_next_iff : (s.live.next strategy rule success base now).isNumber = true ↔
    (s.start strategy rule base).isNaN = false := by
  rw [Record.isNumber_iff, isNaN_confidence_next]

/-- What a persistent store does with an outcome. -/
theorem record_eq {rows : List Row} (hrows : s.saved = some rows) :
    s.record strategy rule success base now =
      if (s.start strategy rule base).isNaN then
        (.error .confidenceNotANumber, { s with live := s.live.add strategy rule success base now })
      else (.ok (s.live.next strategy rule success base now),
        { live := s.live.add strategy rule success base now
          saved := some
            ((Row.ofRecord (s.live.next strategy rule success base now)).insert rows) }) := by
  unfold Store.record save
  dsimp only
  rw [hrows]
  dsimp only
  rw [isNaN_confidence_next]
  cases (s.start strategy rule base).isNaN <;> rfl

@[simp] theorem live_record : (s.record strategy rule success base now).2.live =
    s.live.add strategy rule success base now := by
  cases hrows : s.saved with
  | none =>
    unfold Store.record save
    dsimp only
    rw [hrows]
  | some rows =>
    rw [record_eq hrows]
    split <;> rfl

/-- **An outcome is refused exactly if the confidence that it is blended with is not a number.** -/
theorem record_fails_iff {rows : List Row} (hrows : s.saved = some rows) (strategy rule : String)
    (success : Bool) (base : Float) (now : Instant) :
    (∃ e, (s.record strategy rule success base now).1 = .error e) ↔
      (s.start strategy rule base).isNaN = true := by
  rw [record_eq hrows]
  cases (s.start strategy rule base).isNaN <;> simp

end Outcome

namespace Backed

variable {s : Store}

/-- What is known of a strategy and a rule is a number exactly if the record is. -/
theorem isNaN_start (h : Backed s) {r : Record Float} (hr : r ∈ s.live.records) (base : Float) :
    s.start r.strategy r.rule base = r.confidence := by
  have hget : s.live.get? r.strategy r.rule = some r := by
    rw [Experience.get?_eq_find?]
    exact (Record.find?_eq_some_iff h.distinct).mpr ⟨hr, rfl⟩
  unfold start
  rw [hget]
  rfl

/-- If an outcome is refused, the record that it replaces was no number. -/
theorem filter_isNumber_of_refused (h : Backed s) {strategy rule : String} {base : Float}
    (hrefused : (s.start strategy rule base).isNaN = true) :
    (s.live.records.filter (·.key ≠ (strategy, rule))).filter Record.isNumber =
      s.live.records.filter Record.isNumber := by
  rw [List.filter_filter]
  refine List.filter_congr fun x hx => ?_
  by_cases hkey : x.key = (strategy, rule)
  · have hstart := h.isNaN_start hx base
    obtain ⟨hstrategy, hrule⟩ := Prod.mk.inj hkey
    rw [hstrategy, hrule] at hstart
    have hnone : x.isNumber = false := by
      unfold Record.isNumber
      rw [← hstart, hrefused]
      rfl
    simp [hkey, hnone]
  · simp [hkey]

/-- **An outcome keeps the rows those of the numbers**, also if it is refused. -/
theorem record (h : Backed s) (strategy rule : String) (success : Bool) (base : Float)
    {now : Instant} (hnow : now.HasDate) :
    Backed (s.record strategy rule success base now).2 := by
  obtain ⟨rows, hsaved, hrows⟩ := h.saved
  obtain ⟨r, hr⟩ : ∃ r, r = s.live.next strategy rule success base now := ⟨_, rfl⟩
  have hput := Record.perm_put r h.distinct
  have hdated : ∀ x ∈ Record.put r s.live.records, x.updated.HasDate := by
    intro x hx
    rcases Record.mem_put h.distinct hx with rfl | hx
    · exact hr ▸ hnow
    · exact h.dated x hx
  have hnumber : r.isNumber = true ↔ (s.start strategy rule base).isNaN = false :=
    hr ▸ isNumber_next_iff
  rw [record_eq hsaved, ← hr]
  have hlive : s.live.add strategy rule success base now = ⟨Record.put r s.live.records⟩ := by
    unfold Experience.add
    rw [hr]
  rw [hlive]
  split
  · next hrefused =>
    -- neither the record nor the one in its place is a number, so that the others stay the numbers
    refine ⟨Record.nodup_put r h.distinct, hdated, rows, hsaved, hrows.trans (.map _ ?_)⟩
    have hnone : r.isNumber = false := by
      rw [← Bool.not_eq_true, hnumber, hrefused]
      decide
    refine .trans ?_ (hput.filter _).symm
    have hkey : r.key = (strategy, rule) := hr ▸ Experience.key_next
    rw [List.filter_cons_of_neg (by simp [hnone]), hkey, h.filter_isNumber_of_refused hrefused]
  · next haccepted =>
    refine ⟨Record.nodup_put r h.distinct, hdated, _, rfl, ?_⟩
    have hsome : r.isNumber = true := hnumber.mpr (by simpa using haccepted)
    refine (Row.insert_ofRecord r hrows).trans (.map _ (.trans ?_ (hput.filter _).symm))
    rw [List.filter_cons_of_pos hsome, List.filter_filter, List.filter_filter]
    simp only [Bool.and_comm]
    exact .refl _

theorem reset (h : Backed s) : Backed s.reset.2 := by
  obtain ⟨rows, hsaved, -⟩ := h.saved
  refine ⟨List.nodup_nil, ?_, [], ?_, .refl _⟩
  · simp [Store.reset]
  · simp [Store.reset, hsaved]

theorem answer (h : Backed s) {c : Call} (hc : c.Dated) : Backed (s.answer c).2 := by
  cases c with
  | record strategy rule success base now => exact h.record strategy rule success base hc
  | reset => exact h.reset
  | _ => exact h

/-- **A store that is opened again knows the records whose confidence is a number**, without the
signs of their zeros. -/
theorem reopened (h : Backed s) {order : List Row → List Row}
    (horder : ∀ rows, (order rows).Perm rows) :
    ∃ q, s.reopenBy order = .ok q ∧ Backed q ∧
      q.live.records.Perm ((s.live.records.filter Record.isNumber).map Record.unsigned) := by
  obtain ⟨rows, hsaved, hrows⟩ := h.saved
  obtain ⟨rs, hrs⟩ : ∃ rs, rs = (s.live.records.filter Record.isNumber).map Record.unsigned :=
    ⟨_, rfl⟩
  have hread : (order rows).Perm (rs.map Row.ofRecord) := by
    rw [hrs, List.map_map, show Row.ofRecord ∘ Record.unsigned = Row.ofRecord from
      funext Row.ofRecord_unsigned]
    exact (horder rows).trans hrows
  have hlegible : ∀ r ∈ rs, r.Legible := by
    intro r hr
    obtain ⟨x, hx, rfl⟩ := List.mem_map.mp (hrs ▸ hr)
    exact Record.legible_unsigned (h.dated x (List.mem_of_mem_filter hx))
  obtain ⟨rs', hrs', hperm, horder⟩ := Row.exists_mapM_record? hlegible hread
  have hnumbers : ∀ r ∈ rs', r.isNumber = true := by
    intro r hr
    obtain ⟨x, hx, rfl⟩ := List.mem_map.mp (hrs ▸ hperm.mem_iff.mp hr)
    rw [Record.isNumber_unsigned]
    exact (List.mem_filter.mp hx).2
  refine ⟨⟨⟨rs'⟩, some (order rows)⟩, ?_, ⟨?_, ?_, order rows, rfl, ?_⟩, hrs ▸ hperm⟩
  · unfold reopenBy ofRows
    rw [hsaved]
    dsimp only
    rw [hrs']
  · refine ((hperm.map _).nodup_iff).mpr ?_
    rw [hrs, List.map_map, show Record.key ∘ Record.unsigned = Record.key from rfl]
    exact h.distinct.sublist (List.filter_sublist.map _)
  · exact fun r hr => (hlegible r (hperm.mem_iff.mp hr)).dated
  · rw [horder, List.filter_eq_self.mpr hnumbers]

/-! ## When both say the same -/

/-- **A store that is opened again says the same where all confidences are numbers.** -/
theorem answers_equal (h : Backed s) (hnumbers : s.Numbers) {q : Store}
    (hq : q.live.records.Perm ((s.live.records.filter Record.isNumber).map Record.unsigned))
    {c : Call} (hc : c.Reads) : (s.answer c).1.Equals (q.answer c).1 := by
  rw [List.filter_eq_self.mpr hnumbers] at hq
  have hkeys : ((s.live.records.map Record.unsigned).map Record.key).Nodup := by
    rw [List.map_map, show Record.key ∘ Record.unsigned = Record.key from rfl]
    exact h.distinct
  have hget : ∀ strategy rule, q.live.get? strategy rule =
      (s.live.get? strategy rule).map Record.unsigned := by
    intro strategy rule
    rw [Experience.get?_eq_find?, Experience.get?_eq_find?, Record.find?_congr hkeys hq,
      List.find?_map]
    rfl
  have hequal : ∀ strategy rule,
      Option.Rel Record.Equals (s.live.get? strategy rule) (q.live.get? strategy rule) := by
    intro strategy rule
    rw [hget]
    cases hr : s.live.get? strategy rule with
    | none => exact .none
    | some r =>
      rw [Experience.get?_eq_find?] at hr
      exact .some (Record.equals_unsigned (hnumbers r (List.mem_of_find?_eq_some hr)))
  cases c with
  | record => exact hc.elim
  | reset => exact hc.elim
  | get strategy rule => exact .found (hequal strategy rule)
  | entries =>
    obtain ⟨e, he⟩ : ∃ e : Experience Float, e = ⟨s.live.records.map Record.unsigned⟩ := ⟨_, rfl⟩
    have hsorted : q.live.sorted = s.live.sorted.map Record.unsigned := by
      rw [← Experience.sorted_map_unsigned h.distinct, ← he]
      exact Experience.sorted_congr (he ▸ hkeys) (he ▸ hq)
    refine .listed ?_
    rw [hsorted, List.forall₂_map_right_iff, List.forall₂_same]
    intro r hr
    exact Record.equals_unsigned (hnumbers r ((List.mergeSort_perm _ _).mem_iff.mp hr))
  | snapshot =>
    refine .learned fun strategy rule => ?_
    rw [Experience.get?_snapshot, Experience.get?_snapshot]
    exact Record.Equals.map_confidence (hequal strategy rule)
  | size =>
    have hlength : q.live.size = s.live.size := by
      unfold Experience.size
      rw [hq.length_eq, List.length_map]
    show Answer.Equals (.counted s.live.size) (.counted q.live.size)
    rw [hlength]
    exact .counted _

/-- A store that is opened again and has as many records has only met numbers. -/
theorem numbers_of_size_eq {q : Store}
    (hq : q.live.records.Perm ((s.live.records.filter Record.isNumber).map Record.unsigned))
    (hsize : s.live.size = q.live.size) : s.Numbers := by
  have hlength : (s.live.records.filter Record.isNumber).length = s.live.records.length := by
    have hq := hq.length_eq
    rw [List.length_map] at hq
    exact hq.symm.trans hsize.symm
  exact List.length_filter_eq_length_iff.mp hlength

/-- **An outcome is recorded as a whole or not at all exactly if all confidences in memory are
numbers afterwards.** -/
theorem atomic_iff (h : Backed s) (strategy rule : String) (success : Bool) (base : Float)
    {now : Instant} (hnow : now.HasDate) :
    Atomic s (s.record strategy rule success base now) ↔
      (s.record strategy rule success base now).2.Numbers := by
  have hafter := h.record strategy rule success base hnow
  constructor
  · intro hatomic
    have hid : ∀ rows : List Row, (id rows).Perm rows := fun rows => .refl rows
    obtain ⟨q, hq, -, hperm⟩ := hafter.reopened hid
    obtain ⟨q', hq', hequal⟩ := hatomic.kept id hid
    obtain rfl := Except.ok.inj (hq.symm.trans hq')
    exact numbers_of_size_eq hperm (Answer.Equals.counted_eq (hequal .size trivial))
  · intro hnumbers
    constructor
    · intro e he
      obtain ⟨rows, hsaved, -⟩ := h.saved
      have hrefused := (record_fails_iff hsaved strategy rule success base now).mp ⟨e, he⟩
      have hmem : s.live.next strategy rule success base now ∈
          (s.record strategy rule success base now).2.live.records := by
        rw [live_record]
        exact (Record.perm_put _ h.distinct).mem_iff.mpr (by simp)
      rw [← Bool.not_eq_false, ← isNumber_next_iff] at hrefused
      exact absurd (hnumbers _ hmem) hrefused
    · intro order horder
      obtain ⟨q, hq, -, hperm⟩ := hafter.reopened horder
      exact ⟨q, hq, fun c hc => hafter.answers_equal hnumbers hperm hc⟩

end Backed

/-! ## Whole runs -/

/-- Numbers come of numbers. -/
theorem Backed.numbers_record {s : Store} (h : Backed s) (hnumbers : s.Numbers)
    (strategy rule : String) (success : Bool) {base : Float} (hbase : base.isNaN = false)
    (now : Instant) : (s.record strategy rule success base now).2.Numbers := by
  intro r hr
  rw [live_record] at hr
  rcases Record.mem_put h.distinct hr with rfl | hr
  · exact isNumber_next_iff.mpr (hnumbers.start strategy rule hbase)
  · exact hnumbers r hr

theorem Backed.numbers_answer {s : Store} (h : Backed s) (hnumbers : s.Numbers) {c : Call}
    (hc : ∀ b ∈ (Event.call c).base?, b.isNaN = false) : (s.answer c).2.Numbers := by
  cases c with
  | record strategy rule success base now =>
    exact h.numbers_record hnumbers strategy rule success (hc base rfl) now
  | reset =>
    intro r hr
    cases hr
  | _ => exact hnumbers

/-- Calls and openings can always go on, and lead to backed stores; to stores of numbers, if all
that comes with outcomes are numbers. -/
theorem Backed.after : ∀ {es : List Event} {s : Store}, Backed s → (∀ e ∈ es, e.Dated) →
    ∃ s', s.after es = .ok s' ∧ Backed s' ∧
      (s.Numbers → (∀ e ∈ es, ∀ b ∈ e.base?, b.isNaN = false) → s'.Numbers)
  | [], s, h, _ => ⟨s, rfl, h, fun hnumbers _ => hnumbers⟩
  | .call c :: es, s, h, hes => by
    rw [List.forall_mem_cons] at hes
    obtain ⟨s', hs', hbacked, hafter⟩ := (h.answer hes.1).after hes.2
    refine ⟨s', hs', hbacked, fun hnumbers hbases => ?_⟩
    rw [List.forall_mem_cons] at hbases
    exact hafter (h.numbers_answer hnumbers hbases.1) hbases.2
  | .reopening order :: es, s, h, hes => by
    rw [List.forall_mem_cons] at hes
    obtain ⟨q, hq, hq', hperm⟩ := h.reopened hes.1
    obtain ⟨s', hs', hbacked, hafter⟩ := hq'.after hes.2
    refine ⟨s', ?_, hbacked, fun _ hbases => ?_⟩
    · unfold Store.after
      rw [hq]
      exact hs'
    rw [List.forall_mem_cons] at hbases
    refine hafter (fun r hr => ?_) hbases.2
    obtain ⟨x, hx, rfl⟩ := List.mem_map.mp (hperm.mem_iff.mp hr)
    rw [Record.isNumber_unsigned]
    exact (List.mem_filter.mp hx).2

/-- **An outcome is refused exactly if the confidence that it is blended with is not a number, and
it is recorded as a whole or not at all exactly if all confidences in memory are numbers
afterwards**, whatever calls and openings have led to the store. It is recorded as a whole if only
numbers have come with outcomes. -/
theorem record_atomic_iff {es : List Event} (hes : ∀ e ∈ es, e.Dated) (strategy rule : String)
    (success : Bool) (base : Float) (now : Instant) (hnow : now.HasDate) :
    ∃ s, fresh.after es = .ok s ∧
      ((∃ e, (s.record strategy rule success base now).1 = .error e) ↔
        (s.start strategy rule base).isNaN = true) ∧
      (Atomic s (s.record strategy rule success base now) ↔
        (s.record strategy rule success base now).2.Numbers) ∧
      ((∀ e ∈ es, ∀ b ∈ e.base?, b.isNaN = false) → base.isNaN = false →
        Atomic s (s.record strategy rule success base now) ∧
        ∃ r, (s.record strategy rule success base now).1 = .ok r) := by
  obtain ⟨s, hs, hbacked, hafter⟩ := backed_fresh.after hes
  obtain ⟨rows, hsaved, -⟩ := hbacked.saved
  have hfails := record_fails_iff hsaved strategy rule success base now
  have hatomic := hbacked.atomic_iff strategy rule success base hnow
  refine ⟨s, hs, hfails, hatomic, fun hbases hbase => ?_⟩
  have hnumbers : s.Numbers := hafter (by simp [Numbers, fresh]) hbases
  refine ⟨hatomic.mpr (hbacked.numbers_record hnumbers strategy rule success hbase now), ?_⟩
  cases hresult : (s.record strategy rule success base now).1 with
  | ok r => exact ⟨r, rfl⟩
  | error e =>
    have hrefused := hfails.mp ⟨e, hresult⟩
    rw [hnumbers.start strategy rule hbase] at hrefused
    cases hrefused

/-- After two outcomes and an opening at which the table gives its rows back in reverse, a third one
is recorded as a whole, though the confidence it comes with is infinite. -/
theorem record_atomic_iff_sample :
    let es : List Event := [.call (.record "bind" "leak" true (-0.5) ⟨1767225600000⟩),
      .reopening List.reverse, .call (.record "log" "console" false 0.95 ⟨1767225600001⟩)]
    ∃ s, fresh.after es = .ok s ∧
      Atomic s (s.record "bind" "console" false (1.0 / 0.0) ⟨1767225600002⟩) ∧
      ∃ r, (s.record "bind" "console" false (1.0 / 0.0) ⟨1767225600002⟩).1 = .ok r := by
  intro es
  have hdated : ∀ e ∈ es, e.Dated := by
    have hreverse : Event.Dated (.reopening List.reverse) := fun rows => rows.reverse_perm
    have hbind : Event.Dated (.call (.record "bind" "leak" true (-0.5) ⟨1767225600000⟩)) :=
      show Instant.HasDate _ by decide
    have hlog : Event.Dated (.call (.record "log" "console" false 0.95 ⟨1767225600001⟩)) :=
      show Instant.HasDate _ by decide
    simp only [es, List.forall_mem_cons]
    exact ⟨hbind, hreverse, hlog, by simp⟩
  obtain ⟨s, hs, -, -, hrecorded⟩ := record_atomic_iff hdated "bind" "console" false (1.0 / 0.0)
    ⟨1767225600002⟩ (by decide)
  refine ⟨s, hs, hrecorded ?_ (by decide)⟩
  simp only [es, List.forall_mem_cons, Event.base?, Option.mem_some_iff, forall_eq']
  exact ⟨by decide, by simp, by decide, by simp⟩

/-- An outcome that comes with what is not a number is refused, but it has been counted: the store
answers otherwise than before, and otherwise than one that is opened again. -/
theorem record_keeps_refused :
    let result := fresh.record "log" "console" true (0.0 / 0.0) ⟨1767225600000⟩
    result.1 = .error .confidenceNotANumber ∧
      (fresh.live.get? "log" "console").map (·.attempts) = none ∧
      (result.2.live.get? "log" "console").map (·.attempts) = some 1 ∧
      result.2.reopen.toOption.map (·.live.size) = some 0 ∧ ¬ Atomic fresh result := by
  intro result
  have hresult : result = (.error .confidenceNotANumber,
      { fresh with live := fresh.live.add "log" "console" true (0.0 / 0.0) ⟨1767225600000⟩ }) :=
    (record_eq rfl).trans (if_pos (by decide))
  have hrefused : result.1 = .error .confidenceNotANumber := by rw [hresult]
  refine ⟨hrefused, rfl, by rw [hresult]; rfl, by rw [hresult]; rfl, fun hatomic => ?_⟩
  have hget := hatomic.undone _ hrefused (.get "log" "console") trivial
  cases hget

end Store

end Mend

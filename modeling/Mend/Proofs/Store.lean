import Mathlib.Data.List.Nodup
import Mathlib.Data.List.Perm.Basic
import Mathlib.Data.Prod.Lex
import Mathlib.Data.String.Basic
import Mend.Proofs.Calendar
import Mend.Proofs.Confidence
import Mend.Proofs.Experience
import Mend.Store

/-!
# A store that is opened again

A persistent store keeps what it knows twice: in memory, where a record keeps the place in which it
was begun, and as rows, where a saved record moves behind all others. A store that is opened again
knows what the rows say, in the order in which the table gives them back.

* `Record.perm_put`: a record that is put takes the place of the one with its key.
* `Experience.sorted_congr`: records are listed in one order, however they are kept.
* `Row.record?_ofRecord`: the record that a row was saved for is read back from it.
* `Mirrors`: what a persistent store and one in memory have in common after the same calls.
* `Mirrors.answer`, `Mirrors.reopened`: a call and an opening keep it.
* `reopening_invisible`: **opening a store again, at any time and whatever the order of the rows,
  changes no answer**.
-/

namespace Mend

/-! ## Records and their order -/

namespace Record

variable {κ : Type}

/-- Where keys are distinct, the record with a key is the one that is found. -/
theorem find?_eq_some_iff {rs : List (Record κ)} (hkeys : (rs.map key).Nodup)
    {k : String × String} {r : Record κ} :
    rs.find? (·.key = k) = some r ↔ r ∈ rs ∧ r.key = k := by
  constructor
  · intro h
    exact ⟨List.mem_of_find?_eq_some h, by simpa using List.find?_some h⟩
  · rintro ⟨hr, rfl⟩
    cases hfind : rs.find? (·.key = r.key) with
    | none => exact absurd (List.find?_eq_none.mp hfind r hr) (by simp)
    | some r' =>
      have hkey : r'.key = r.key := by simpa using List.find?_some hfind
      rw [List.inj_on_of_nodup_map hkeys (List.mem_of_find?_eq_some hfind) hr hkey]

/-- What is found under a key does not depend on the order. -/
theorem find?_congr {rs rs' : List (Record κ)} (hkeys : (rs'.map key).Nodup) (h : rs.Perm rs')
    (k : String × String) : rs.find? (·.key = k) = rs'.find? (·.key = k) := by
  ext r
  rw [find?_eq_some_iff ((h.map key).nodup_iff.mpr hkeys), find?_eq_some_iff hkeys, h.mem_iff]

/-- **A record that is put takes the place of the one with its key.** -/
theorem perm_put (r : Record κ) {rs : List (Record κ)} (hkeys : (rs.map key).Nodup) :
    (put r rs).Perm (r :: rs.filter (·.key ≠ r.key)) := by
  induction rs with
  | nil => exact .refl _
  | cons x rs ih =>
    rw [List.map_cons, List.nodup_cons] at hkeys
    unfold put
    by_cases hx : x.key = r.key
    · have hothers : rs.filter (·.key ≠ r.key) = rs := by
        refine List.filter_eq_self.mpr fun y hy => decide_eq_true fun hkey => hkeys.1 ?_
        exact List.mem_map.mpr ⟨y, hy, hkey.trans hx.symm⟩
      rw [if_pos hx, List.filter_cons_of_neg (by simpa using hx), hothers]
    · rw [if_neg hx, List.filter_cons_of_pos (by simpa using hx)]
      exact ((ih hkeys.2).cons x).trans (.swap r x _)

theorem nodup_put (r : Record κ) {rs : List (Record κ)} (hkeys : (rs.map key).Nodup) :
    ((put r rs).map key).Nodup := by
  refine ((perm_put r hkeys).map key).nodup_iff.mpr ?_
  rw [List.map_cons, List.nodup_cons]
  refine ⟨fun hmem => ?_, hkeys.sublist (List.filter_sublist.map key)⟩
  obtain ⟨x, hx, hkey⟩ := List.mem_map.mp hmem
  exact absurd hkey (by simpa using (List.mem_filter.mp hx).2)

theorem mem_put {r x : Record κ} {rs : List (Record κ)} (hkeys : (rs.map key).Nodup)
    (hx : x ∈ put r rs) : x = r ∨ x ∈ rs := by
  rcases List.mem_cons.mp ((perm_put r hkeys).mem_iff.mp hx) with h | h
  · exact .inl h
  · exact .inr (List.mem_of_mem_filter h)

theorem precedes_iff (a b : Record κ) :
    a.precedes b = true ↔ toLex (a.strategy, a.rule) ≤ toLex (b.strategy, b.rule) := by
  unfold precedes
  rw [Prod.Lex.toLex_le_toLex]
  simp

end Record

namespace Experience

variable {κ : Type}

/-- Records are listed by strategy, and by rule within one strategy. -/
theorem pairwise_sorted {e : Experience κ} (hkeys : (e.records.map Record.key).Nodup) :
    e.sorted.Pairwise fun a b => toLex (a.strategy, a.rule) < toLex (b.strategy, b.rule) := by
  have htrans : ∀ a b c : Record κ, a.precedes b = true → b.precedes c = true →
      a.precedes c = true := by
    intro a b c hab hbc
    rw [Record.precedes_iff] at hab hbc ⊢
    exact le_trans hab hbc
  have htotal : ∀ a b : Record κ, (a.precedes b || b.precedes a) = true := by
    intro a b
    rw [Bool.or_eq_true, Record.precedes_iff, Record.precedes_iff]
    exact le_total _ _
  have hdistinct : e.sorted.Pairwise fun a b => a.key ≠ b.key :=
    List.pairwise_map.mp ((((List.mergeSort_perm _ _).map Record.key).nodup_iff).mpr hkeys)
  refine ((List.pairwise_mergeSort htrans htotal e.records).and hdistinct).imp ?_
  rintro a b ⟨hprecedes, hne⟩
  rw [Record.precedes_iff] at hprecedes
  exact lt_of_le_of_ne hprecedes hne

/-- **Records are listed in one order**, however they are kept. -/
theorem sorted_congr {e e' : Experience κ} (hkeys : (e'.records.map Record.key).Nodup)
    (h : e.records.Perm e'.records) : e.sorted = e'.sorted := by
  have hperm : e.sorted.Perm e'.sorted :=
    (List.mergeSort_perm _ _).trans (h.trans (List.mergeSort_perm _ _).symm)
  refine List.Perm.eq_of_pairwise ?_ (pairwise_sorted ((h.map _).nodup_iff.mpr hkeys))
    (pairwise_sorted hkeys) hperm
  intro a b _ _ hab hba
  exact absurd hba hab.asymm

end Experience

/-! ## Rows -/

/-- A record that is read back from its row: its confidence is no zero with a sign, and its moment
has a date. -/
structure Record.Legible (r : Record Float) : Prop where
  unsigned : (r.confidence == 0.0) = true → r.confidence = 0.0
  dated : r.updated.HasDate

/-- A record that is read back from its row, with a confidence that is saved. -/
structure Record.Savable (r : Record Float) : Prop extends r.Legible where
  nonneg : 0.0 ≤ r.confidence

namespace Row

/-- **The record that a row was saved for is read back from it.** -/
theorem record?_ofRecord {r : Record Float} (h : r.Legible) : (ofRecord r).record? = some r := by
  have hconfidence : (ofRecord r).confidence = r.confidence := by
    unfold ofRecord
    dsimp only
    split
    · next hzero => exact (h.unsigned hzero).symm
    · rfl
  have hupdated : Instant.ofText? (ofRecord r).updated = some r.updated := h.dated.ofText?_text
  unfold record?
  rw [hupdated, hconfidence]
  rfl

theorem insert_ofRecord (r : Record Float) {rows : List Row} {rs : List (Record Float)}
    (hrows : rows.Perm (rs.map ofRecord)) :
    ((ofRecord r).insert rows).Perm ((r :: rs.filter (·.key ≠ r.key)).map ofRecord) := by
  unfold insert
  refine (List.perm_append_singleton _ _).trans ?_
  rw [List.map_cons]
  refine .cons _ ((hrows.filter _).trans ?_)
  rw [List.filter_map]
  exact .refl _

theorem mapM_record?_ofRecord {rs : List (Record Float)} (hlegible : ∀ r ∈ rs, r.Legible) :
    (rs.map ofRecord).mapM record? = some rs := by
  induction rs with
  | nil => rfl
  | cons r rs ih =>
    rw [List.forall_mem_cons] at hlegible
    rw [List.map_cons, List.mapM_cons, record?_ofRecord hlegible.1, ih hlegible.2]
    rfl

theorem exists_map_ofRecord {rows : List Row} (h : ∀ w ∈ rows, ∃ r, r.Legible ∧ ofRecord r = w) :
    ∃ rs : List (Record Float), (∀ r ∈ rs, r.Legible) ∧ rs.map ofRecord = rows := by
  induction rows with
  | nil => exact ⟨[], by simp, rfl⟩
  | cons w rows ih =>
    rw [List.forall_mem_cons] at h
    obtain ⟨⟨r, hr, rfl⟩, hrows⟩ := h
    obtain ⟨rs, hrs, rfl⟩ := ih hrows
    exact ⟨r :: rs, List.forall_mem_cons.mpr ⟨hr, hrs⟩, rfl⟩

/-- **Rows are read back as the records that they were saved for**, in whatever order. -/
theorem exists_mapM_record? {rows : List Row} {rs : List (Record Float)}
    (hlegible : ∀ r ∈ rs, r.Legible) (hrows : rows.Perm (rs.map ofRecord)) :
    ∃ rs', rows.mapM record? = some rs' ∧ rs'.Perm rs ∧ rows = rs'.map ofRecord := by
  have hread : ∀ rs : List (Record Float), (∀ r ∈ rs, r.Legible) →
      (rs.map ofRecord).filterMap record? = rs := by
    intro rs hlegible
    have hsome : ∀ r ∈ rs, (record? ∘ ofRecord) r = some r := by
      intro r hr
      rw [Function.comp_apply, record?_ofRecord (hlegible r hr)]
    rw [List.filterMap_map, List.filterMap_congr hsome, List.filterMap_some]
  obtain ⟨rs', hlegible', rfl⟩ := exists_map_ofRecord fun w hw => by
    obtain ⟨r, hr, rfl⟩ := List.mem_map.mp (hrows.mem_iff.mp hw)
    exact ⟨r, hlegible r hr, rfl⟩
  refine ⟨rs', mapM_record?_ofRecord hlegible', ?_, rfl⟩
  rw [← hread _ hlegible, ← hread _ hlegible']
  exact hrows.filterMap _

end Row

/-! ## Calls and their answers -/

namespace Store

/-- What a store can be asked. -/
inductive Call
  | record (strategy rule : String) (success : Bool) (base : Float) (now : Instant)
  | reset
  | get (strategy rule : String)
  | entries
  | snapshot
  | size

/-- What a store answers. A snapshot is a mapping: it has no order. -/
inductive Answer
  | recorded (result : Except StoreError (Record Float))
  | forgotten (count : Nat)
  | found (r : Option (Record Float))
  | listed (rs : List (Record Float))
  | learned (confidence? : String → String → Option Float)
  | counted (n : Nat)

/-- The answer to a call, and the store behind it. -/
def answer (s : Store) : Call → Answer × Store
  | .record strategy rule success base now =>
    ((.recorded (s.record strategy rule success base now).1),
      (s.record strategy rule success base now).2)
  | .reset => (.forgotten s.reset.1, s.reset.2)
  | .get strategy rule => (.found (s.live.get? strategy rule), s)
  | .entries => (.listed s.live.sorted, s)
  | .snapshot => (.learned s.live.snapshot.get?, s)
  | .size => (.counted s.live.size, s)

/-- The answers to calls, one after another. -/
def answers (s : Store) : List Call → List Answer
  | [] => []
  | c :: cs => (s.answer c).1 :: (s.answer c).2.answers cs

/-- A new store in the same place. The table gives its rows back in an order of its own. -/
def reopenBy (order : List Row → List Row) (s : Store) : Except StoreError Store :=
  match s.saved with
  | none => .ok inMemory
  | some rows => ofRows (order rows)

/-- A store is opened again with its rows in the order in which they were saved, or in any other. -/
theorem reopen_eq_reopenBy (s : Store) : s.reopen = s.reopenBy id := rfl

/-- What happens to a persistent store: it is called, or it is opened again. -/
inductive Event
  | call (c : Call)
  | reopening (order : List Row → List Row)

/-- The answers of a store that is opened again from time to time. -/
def answersTo (s : Store) : List Event → Except StoreError (List Answer)
  | [] => .ok []
  | .call c :: es => do
    let rest ← (s.answer c).2.answersTo es
    return (s.answer c).1 :: rest
  | .reopening order :: es => do
    let s ← s.reopenBy order
    s.answersTo es

/-- A base confidence is between 0 and 1, and the clock shows a moment that has a date. -/
def Call.Proper : Call → Prop
  | .record _ _ _ base now => 0.0 ≤ base ∧ base ≤ 1.0 ∧ now.HasDate
  | _ => True

/-- Calls are proper, and a table gives back the rows that it has. -/
def Event.Proper : Event → Prop
  | .call c => c.Proper
  | .reopening order => ∀ rows, (order rows).Perm rows

/-- The calls among what happens to a store. -/
def calls (es : List Event) : List Call :=
  es.filterMap fun
    | .call c => some c
    | .reopening _ => none

/-! ## Two stores after the same calls -/

/-- A persistent store and one in memory know the same records, and the rows are those of the
records. -/
structure Mirrors (p m : Store) : Prop where
  memory : m.saved = none
  distinct : (m.live.records.map Record.key).Nodup
  savable : ∀ r ∈ m.live.records, r.Savable
  live : p.live.records.Perm m.live.records
  saved : ∃ rows, p.saved = some rows ∧ rows.Perm (m.live.records.map Row.ofRecord)

theorem mirrors_fresh : Mirrors fresh inMemory where
  memory := rfl
  distinct := List.nodup_nil
  savable := by simp [inMemory]
  live := .refl _
  saved := ⟨[], rfl, .refl _⟩

namespace Mirrors

variable {p m : Store}

theorem get? (h : Mirrors p m) (strategy rule : String) :
    p.live.get? strategy rule = m.live.get? strategy rule := by
  rw [Experience.get?_eq_find?, Experience.get?_eq_find?]
  exact Record.find?_congr h.distinct h.live _

theorem next (h : Mirrors p m) (strategy rule : String) (success : Bool) (base : Float)
    (now : Instant) :
    p.live.next strategy rule success base now = m.live.next strategy rule success base now := by
  unfold Experience.next
  rw [h.get?]

theorem savable_next (h : Mirrors p m) (strategy rule : String) (success : Bool) {base : Float}
    {now : Instant} (hbase : 0.0 ≤ base) (hnow : now.HasDate) :
    (m.live.next strategy rule success base now).Savable := by
  have hold : 0.0 ≤ ((m.live.get? strategy rule).map (·.confidence)).getD base := by
    cases hget : m.live.get? strategy rule with
    | none => exact hbase
    | some r =>
      rw [Experience.get?_eq_find?] at hget
      exact (h.savable r (List.mem_of_find?_eq_some hget)).nonneg
  have houtcome : Double.Unsigned (if success then (1.0 : Float) else 0.0).toModel.unpack := by
    cases success
    · exact trivial
    · exact trivial
  obtain ⟨hnonneg, hunsigned⟩ := Double.half_sum hold houtcome
  refine ⟨⟨?_, hnow⟩, ?_⟩
  · rw [Experience.confidence_next]
    exact hunsigned
  · rw [Experience.confidence_next]
    exact hnonneg

/-- **Both stores answer an outcome with the same record**, and the row of the persistent store is
the one for that record. -/
theorem record (h : Mirrors p m) (strategy rule : String) (success : Bool) {base : Float}
    {now : Instant} (hbase : 0.0 ≤ base) (hnow : now.HasDate) :
    (p.record strategy rule success base now).1 = (m.record strategy rule success base now).1 ∧
      Mirrors (p.record strategy rule success base now).2
        (m.record strategy rule success base now).2 := by
  obtain ⟨rows, hsaved, hrows⟩ := h.saved
  obtain ⟨r, hr⟩ : ∃ r, r = m.live.next strategy rule success base now := ⟨_, rfl⟩
  have hsavable : r.Savable := hr ▸ h.savable_next strategy rule success hbase hnow
  have hpersistent : p.record strategy rule success base now =
      (.ok r, ⟨⟨Record.put r p.live.records⟩, some ((Row.ofRecord r).insert rows)⟩) := by
    unfold Store.record save Experience.add
    rw [h.next, ← hr, hsaved]
    dsimp only
    rw [if_neg (by rw [Double.isNaN_of_zero_le hsavable.nonneg]; decide)]
  have hmemory : m.record strategy rule success base now =
      (.ok r, ⟨⟨Record.put r m.live.records⟩, none⟩) := by
    unfold Store.record save Experience.add
    rw [← hr, h.memory]
  have hput := Record.perm_put r h.distinct
  have hkeys : (p.live.records.map Record.key).Nodup :=
    (h.live.map _).nodup_iff.mpr h.distinct
  rw [hpersistent, hmemory]
  refine ⟨rfl, rfl, Record.nodup_put r h.distinct, ?_, ?_, _, rfl, ?_⟩
  · intro x hx
    rcases Record.mem_put h.distinct hx with rfl | hx
    · exact hsavable
    · exact h.savable x hx
  · exact (Record.perm_put r hkeys).trans (((h.live.filter _).cons r).trans hput.symm)
  · exact (Row.insert_ofRecord r hrows).trans (hput.symm.map _)

theorem reset (h : Mirrors p m) : Mirrors p.reset.2 m.reset.2 := by
  obtain ⟨rows, hsaved, -⟩ := h.saved
  refine ⟨?_, List.nodup_nil, ?_, .refl _, [], ?_, .refl _⟩
  · simp [Store.reset, h.memory]
  · simp [Store.reset]
  · simp [Store.reset, hsaved]

/-- **Both stores answer a call alike**, and have the same records behind it. -/
theorem answer (h : Mirrors p m) {c : Call} (hc : c.Proper) :
    (p.answer c).1 = (m.answer c).1 ∧ Mirrors (p.answer c).2 (m.answer c).2 := by
  cases c with
  | record strategy rule success base now =>
    obtain ⟨hbase, -, hnow⟩ := hc
    obtain ⟨hanswer, hmirrors⟩ := h.record strategy rule success hbase hnow
    exact ⟨congrArg Answer.recorded hanswer, hmirrors⟩
  | reset => exact ⟨congrArg Answer.forgotten h.live.length_eq, h.reset⟩
  | get strategy rule => exact ⟨congrArg Answer.found (h.get? strategy rule), h⟩
  | entries => exact ⟨congrArg Answer.listed (Experience.sorted_congr h.distinct h.live), h⟩
  | snapshot =>
    refine ⟨congrArg Answer.learned ?_, h⟩
    funext strategy rule
    rw [Experience.get?_snapshot, Experience.get?_snapshot, h.get?]
  | size => exact ⟨congrArg Answer.counted h.live.length_eq, h⟩

/-- **A store can be opened again**, and knows the same records as before. -/
theorem reopened (h : Mirrors p m) {order : List Row → List Row}
    (horder : ∀ rows, (order rows).Perm rows) :
    ∃ q, p.reopenBy order = .ok q ∧ Mirrors q m := by
  obtain ⟨rows, hsaved, hrows⟩ := h.saved
  have hread : (order rows).Perm (m.live.records.map Row.ofRecord) := (horder rows).trans hrows
  obtain ⟨rs, hrs, hperm, -⟩ := Row.exists_mapM_record? (fun r hr => (h.savable r hr).toLegible) hread
  refine ⟨⟨⟨rs⟩, some (order rows)⟩, ?_, h.memory, h.distinct, h.savable, hperm, _, rfl, hread⟩
  unfold reopenBy ofRows
  rw [hsaved]
  dsimp only
  rw [hrs]

theorem answersTo : ∀ {es : List Event} {p m : Store}, Mirrors p m → (∀ e ∈ es, e.Proper) →
    p.answersTo es = .ok (m.answers (calls es))
  | [], _, _, _, _ => rfl
  | .call c :: es, p, m, h, hes => by
    rw [List.forall_mem_cons] at hes
    obtain ⟨hanswer, hmirrors⟩ := h.answer hes.1
    unfold Store.answersTo
    rw [hmirrors.answersTo hes.2, hanswer]
    rfl
  | .reopening order :: es, p, m, h, hes => by
    rw [List.forall_mem_cons] at hes
    obtain ⟨q, hq, hmirrors⟩ := h.reopened hes.1
    unfold Store.answersTo
    rw [hq]
    exact hmirrors.answersTo hes.2

end Mirrors

/-- **Opening a store again changes no answer**: a persistent store that is opened again at any
time, whatever the order in which its table gives the rows back, answers all calls, and answers
each of them as a store in memory that is never left. -/
theorem reopening_invisible {es : List Event} (hes : ∀ e ∈ es, e.Proper) :
    fresh.answersTo es = .ok (inMemory.answers (calls es)) :=
  mirrors_fresh.answersTo hes

/-- The table gives its rows back in reverse before a record is changed, and before all are
listed. -/
theorem reopening_invisible_sample :
    let now : Instant := ⟨1767225600000⟩
    let log : Call := .record "replace_console_log" "console_log" true 0.95 now
    let secrets : Call := .record "externalize_secrets" "secrets" false 0.7 (now.later 1)
    fresh.answersTo [.call log, .call secrets, .reopening List.reverse, .call log,
        .reopening List.reverse, .call .entries] =
      .ok (inMemory.answers [log, secrets, log, .entries]) := by
  refine reopening_invisible ?_
  have hreverse : Event.Proper (.reopening List.reverse) := fun rows => rows.reverse_perm
  have hlog : Event.Proper (.call (.record "replace_console_log" "console_log" true 0.95
    ⟨1767225600000⟩)) := ⟨by decide, by decide, by decide⟩
  simp only [List.forall_mem_cons]
  exact ⟨hlog, ⟨by decide, by decide, by decide⟩, hreverse, hlog, hreverse, trivial, by simp⟩

end Store

end Mend

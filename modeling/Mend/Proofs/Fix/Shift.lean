import Mend.Fix.Hygiene
import Mend.Proofs.Fix.Audit

/-!
# Where lines come to stand

Changes that account for a text also tell of every line that they do not touch where it has come to
stand: as many lines further down as they have put above it in excess of those that stood there.

* `Change.touches`, `Change.growth`: the lines that a change is about, and how many more there are
  for it.
* `carry`: where a line comes to stand by some changes, unless one of them touches it.
* `KeepsLines`: the lines that are followed from one text to another one are the same in both, and
  the last one stays behind all others.
* `LineAudit.keeps`, `SpanAudit.keeps`: **changes that account for a text keep the lines that they
  do not touch**.
-/

namespace Mend

open Text

/-! ## Lines that changes are about -/

namespace Change

/-- The number of lines that stood where a change was made. -/
def rowsBefore (c : Change) : Nat := (c.before.map fun t => (lines t).length).getD 0

/-- Whether an empty line comes with an insertion that does not mention it. The import of the logger
brings one. -/
def spaced (c : Change) : Bool := c.before.isNone && c.after == some Fix.loggerImport

/-- The number of lines that stand there now. -/
def rowsAfter (c : Change) : Nat :=
  (c.after.map fun t => (lines t).length).getD 0 + if c.spaced then 1 else 0

/-- How many more lines there are. -/
def growth (c : Change) : Int := c.rowsAfter - c.rowsBefore

/-- Whether line `n` is among those that stood there. -/
def touches (c : Change) (n : Nat) : Bool := c.line ≤ n && n < c.line + c.rowsBefore

end Change

/-- How many more lines there are for some changes. -/
def totalGrowth : List Change → Int
  | [] => 0
  | c :: cs => c.growth + totalGrowth cs

/-- How far changes move line `n`. -/
def shift (cs : List Change) (n : Nat) : Int :=
  totalGrowth (cs.filter fun c : Change => c.line ≤ n)

/-- The index at which the line at index `k` comes to stand, if no change touches it. The number of
a line is one more than its index. -/
def carry (cs : List Change) (k : Nat) : Option Nat :=
  if cs.any (·.touches (k + 1)) then none else some (k + shift cs (k + 1)).toNat

theorem carry_nil (k : Nat) : carry [] k = some k := by simp [carry, shift, totalGrowth]

/-- **The lines that `move` follows are in both texts**, and the last one stays the last. -/
def KeepsLines (move : Nat → Option Nat) (t u : Text) : Prop :=
  ∀ (k k' : Nat) (line : Text), (lines t)[k]? = some line → move k = some k' →
    (lines u)[k']? = some line ∧ (k + 1 = (lines t).length → k' + 1 = (lines u).length)

namespace KeepsLines

variable {move move' : Nat → Option Nat} {t u v : Text}

theorem refl (t : Text) : KeepsLines some t t := by
  intro k k' line hline hk
  obtain rfl := Option.some.inj hk
  exact ⟨hline, id⟩

theorem trans (h : KeepsLines move t u) (h' : KeepsLines move' u v) :
    KeepsLines (fun k => (move k).bind move') t v := by
  intro k k' line hline hk
  obtain ⟨j, hj, hk'⟩ := Option.bind_eq_some_iff.mp hk
  obtain ⟨hu, hlast⟩ := h k j line hline hj
  obtain ⟨hv, hlast'⟩ := h' j k' line hu hk'
  exact ⟨hv, hlast' ∘ hlast⟩

/-- A text in which every line that is not touched stands where the changes have moved it. -/
theorem of_shift {cs : List Change}
    (h : ∀ (k : Nat) (line : Text), (lines t)[k]? = some line →
      (∀ c ∈ cs, ¬ c.touches (k + 1)) → ∃ k' : Nat, (k' : Int) = k + shift cs (k + 1) ∧
        (lines u)[k']? = some line ∧ (k + 1 = (lines t).length → k' + 1 = (lines u).length)) :
    KeepsLines (carry cs) t u := by
  intro k k' line hline hk
  unfold carry at hk
  split at hk
  · cases hk
  next huntouched =>
  obtain ⟨j, hj, hkept⟩ := h k line hline fun c hc htouches =>
    huntouched (List.any_eq_true.mpr ⟨c, hc, htouches⟩)
  have hsame : j = k' := by
    rw [← hj, Int.toNat_natCast] at hk
    exact Option.some.inj hk
  rwa [hsame] at hkept

end KeepsLines

/-! ## Shifts -/

section Shift

variable {c : Change} {cs : List Change} {n : Nat}

@[simp] theorem totalGrowth_nil : totalGrowth [] = 0 := rfl

theorem totalGrowth_cons (c : Change) (cs : List Change) :
    totalGrowth (c :: cs) = c.growth + totalGrowth cs := rfl

theorem shift_cons (c : Change) (cs : List Change) (n : Nat) :
    shift (c :: cs) n = (if c.line ≤ n then c.growth else 0) + shift cs n := by
  unfold shift
  rw [List.filter_cons]
  by_cases h : c.line ≤ n
  · simp [h, totalGrowth_cons]
  · simp [h]

/-- Changes further down do not move a line. -/
theorem shift_eq_zero (h : ∀ c ∈ cs, (n : Int) < c.line) : shift cs n = 0 := by
  unfold shift
  rw [List.filter_eq_nil_iff.mpr fun c hc => by simpa using h c hc]
  rfl

/-- What changes of one line make of the shift of the lines from there on. -/
theorem shift_succ (cs : List Change) (n : Nat) :
    shift cs (n + 1) =
      shift cs n + totalGrowth (cs.filter fun c : Change => c.line == (n + 1 : Nat)) := by
  induction cs with
  | nil => rfl
  | cons c cs ih =>
    rw [shift_cons, shift_cons, ih, List.filter_cons]
    by_cases heq : c.line = (n + 1 : Nat)
    · rw [if_pos (by omega), if_neg (by omega), if_pos (by simpa using heq), totalGrowth_cons]
      omega
    · have hiff : c.line ≤ ((n + 1 : Nat) : Int) ↔ c.line ≤ (n : Int) := by omega
      have hother : ¬ (c.line == ((n + 1 : Nat) : Int)) = true := by simpa using heq
      rw [if_neg hother, if_congr hiff rfl rfl]
      omega

end Shift

namespace Fix

/-! ## Audits of lines -/

section Lines

variable {gap : List Text} {t u line : Text} {cs : List Change} {c : Change} {n k : Nat}

theorem replacesAt_iff : replacesAt n c = true ↔ c.before.isSome = true ∧ c.line = n := by
  unfold replacesAt
  rw [Bool.and_eq_true, beq_iff_eq]

/-- A change of a line inserts above it or puts something in its place. -/
theorem totalGrowth_filter_line (cs : List Change) (n : Nat) :
    totalGrowth (cs.filter fun c : Change => c.line == (n : Int)) =
      totalGrowth (cs.filter (insertsAt n)) + totalGrowth (cs.filter (replacesAt n)) := by
  induction cs with
  | nil => rfl
  | cons c cs ih =>
    rw [List.filter_cons, List.filter_cons, List.filter_cons]
    unfold insertsAt replacesAt at ih ⊢
    by_cases hline : c.line = n
    · cases hbefore : c.before with
      | none =>
        simp only [hline, BEq.rfl, ↓reduceIte, totalGrowth_cons, ih, Option.isNone_none,
          Option.isSome_none, Bool.and_self, Bool.and_true, Bool.false_eq_true]
        omega
      | some b =>
        simp only [hline, BEq.rfl, ↓reduceIte, totalGrowth_cons, ih, Option.isNone_some,
          Option.isSome_some, Bool.and_self, Bool.and_true, Bool.false_eq_true]
        omega
    · simp [hline, ih]

/-- At most one change puts something in the place of a line. -/
theorem filter_replacesAt (distinct : ((cs.filter (·.before.isSome)).map (·.line)).Nodup)
    (n : Nat) :
    cs.filter (replacesAt n) = (cs.find? (replacesAt n)).toList := by
  induction cs with
  | nil => rfl
  | cons c cs ih =>
    rw [List.filter_cons] at distinct ⊢
    by_cases hc : replacesAt n c = true
    · obtain ⟨hsome, hline⟩ := replacesAt_iff.mp hc
      rw [if_pos hsome, List.map_cons, List.nodup_cons] at distinct
      have hnone : cs.filter (replacesAt n) = [] := by
        rw [List.filter_eq_nil_iff]
        intro d hd hreplaces
        obtain ⟨hsome', hline'⟩ := replacesAt_iff.mp hreplaces
        refine distinct.1 (List.mem_map.mpr ⟨d, List.mem_filter.mpr ⟨hd, hsome'⟩, ?_⟩)
        exact hline'.trans hline.symm
      rw [if_pos hc, List.find?_cons_of_pos hc, hnone]
      rfl
    · rw [if_neg hc, List.find?_cons_of_neg hc]
      refine ih ?_
      split at distinct
      · exact (List.nodup_cons.mp distinct).2
      · exact distinct

/-- How many lines an insertion brings. -/
theorem length_insertion (hbefore : c.before = none)
    (hgap : (gap.flatMap lines).length = if c.spaced then 1 else 0) :
    (((c.after.toList ++ gap).flatMap lines).length : Int) = c.growth := by
  unfold Change.growth Change.rowsAfter Change.rowsBefore
  rw [hbefore, List.flatMap_append, List.length_append, hgap]
  cases c.after with
  | none => simp
  | some a => simp

theorem length_insertions {ds : List Change} (hbefore : ∀ c ∈ ds, c.before = none)
    (hgap : ∀ c ∈ ds, (gap.flatMap lines).length = if c.spaced then 1 else 0) :
    (((ds.flatMap fun c => c.after.toList ++ gap).flatMap lines).length : Int) =
      totalGrowth ds := by
  induction ds with
  | nil => rfl
  | cons c ds ih =>
    rw [List.forall_mem_cons] at hbefore hgap
    rw [totalGrowth_cons, List.flatMap_cons, List.flatMap_append, List.length_append,
      Int.natCast_add, length_insertion hbefore.1 hgap.1, ih hbefore.2 hgap.2]

/-- How many lines a change puts in the place of one. -/
theorem length_replacement (hbefore : c.before = some line) (hline : '\n' ∉ line) :
    ((c.after.toList.flatMap lines).length : Int) = 1 + c.growth := by
  have hsingle : lines line = [line] := lines_eq_singleton hline
  unfold Change.growth Change.rowsAfter Change.rowsBefore Change.spaced
  rw [hbefore, Option.map_some, Option.getD_some, hsingle, Option.isNone_some, Bool.false_and,
    if_neg Bool.false_ne_true, Nat.add_zero, List.length_singleton]
  cases c.after with
  | none => rfl
  | some a =>
    rw [Option.map_some, Option.getD_some, Option.toList_some, List.flatMap_singleton]
    omega

/-- Insertions go above lines, and `gap` follows each of them: an empty line behind the import of
the logger, and nothing behind anything else. -/
def Spaced (gap : List Text) (cs : List Change) : Prop :=
  ∀ c ∈ cs, c.before = none →
    1 ≤ c.line ∧ (gap.flatMap lines).length = if c.spaced then 1 else 0

variable (h : LineAudit gap t cs u) (hgap : Spaced gap cs)

include h in
theorem LineAudit.newline_not_mem (hc : c ∈ cs) (hbefore : c.before = some line) : '\n' ∉ line := by
  obtain ⟨j, -, hj⟩ := h.before_eq c hc line hbefore
  exact newline_not_mem_of_mem_lines (List.mem_of_getElem? hj)

include h hgap in
theorem LineAudit.one_le_line (hc : c ∈ cs) : 1 ≤ c.line := by
  cases hbefore : c.before with
  | none => exact (hgap c hc hbefore).1
  | some b =>
    obtain ⟨j, hj, -⟩ := h.before_eq c hc b hbefore
    omega

include hgap in
theorem Spaced.length_inserted (n : Nat) :
    ((((cs.filter (insertsAt n)).flatMap fun c => c.after.toList ++ gap).flatMap lines).length :
      Int) = totalGrowth (cs.filter (insertsAt n)) := by
  have hinserts : ∀ c ∈ cs.filter (insertsAt n), c ∈ cs ∧ c.before = none := by
    intro c hc
    obtain ⟨hc, hinserts⟩ := List.mem_filter.mp hc
    unfold insertsAt at hinserts
    rw [Bool.and_eq_true, Option.isNone_iff_eq_none] at hinserts
    exact ⟨hc, hinserts.1⟩
  exact length_insertions (fun c hc => (hinserts c hc).2)
    fun c hc => (hgap c (hinserts c hc).1 (hinserts c hc).2).2

include h hgap in
/-- How many lines the changes make of one. -/
theorem LineAudit.length_replayLine (hline : '\n' ∉ line) (n : Nat) :
    (((replayLine gap cs (line, n)).flatMap lines).length : Int) =
      1 + totalGrowth (cs.filter fun c : Change => c.line == (n : Int)) := by
  have hsingle : lines line = [line] := lines_eq_singleton hline
  unfold replayLine
  rw [List.flatMap_append, List.length_append, Int.natCast_add, hgap.length_inserted,
    totalGrowth_filter_line, filter_replacesAt h.distinct]
  dsimp only
  cases hfound : cs.find? (replacesAt n) with
  | none =>
    simp only [Option.toList_none, List.flatMap_singleton, hsingle, List.length_singleton,
      totalGrowth_nil]
    omega
  | some c =>
    have hc := List.mem_of_find?_eq_some hfound
    obtain ⟨b, hb⟩ := Option.isSome_iff_exists.mp (replacesAt_iff.mp (List.find?_some hfound)).1
    dsimp only
    rw [length_replacement hb (h.newline_not_mem hc hb), Option.toList_some, totalGrowth_cons,
      totalGrowth_nil]
    omega

include h hgap in
/-- How many lines the changes make of the first ones. -/
theorem LineAudit.length_replayFrom_take {k : Nat} (hk : k ≤ (lines t).length) :
    (((replayFrom gap cs 1 ((lines t).take k)).flatMap lines).length : Int) = k + shift cs k := by
  induction k with
  | zero =>
    rw [shift_eq_zero fun c hc => by have := h.one_le_line hgap hc; omega]
    rfl
  | succ k ih =>
    have hlt : k < (lines t).length := hk
    have hnone : '\n' ∉ (lines t)[k] := newline_not_mem_of_mem_lines (List.getElem_mem hlt)
    have hone : replayFrom gap cs (1 + k) [(lines t)[k]] =
        replayLine gap cs ((lines t)[k], k + 1) := by
      rw [Nat.add_comm, replayFrom_cons]
      exact List.append_nil _
    rw [List.take_succ_eq_append_getElem hlt, replayFrom_append, List.length_take_of_le hlt.le,
      hone, List.flatMap_append, List.length_append, Int.natCast_add, ih hlt.le,
      h.length_replayLine hgap hnone, shift_succ]
    push_cast
    omega

include h in
/-- Nothing is put in the place of a line that no change touches. -/
theorem LineAudit.find?_replacesAt_eq_none (huntouched : ∀ c ∈ cs, ¬ c.touches n) :
    cs.find? (replacesAt n) = none := by
  rw [List.find?_eq_none]
  intro c hc hreplaces
  obtain ⟨hsome, hline⟩ := replacesAt_iff.mp hreplaces
  obtain ⟨b, hb⟩ := Option.isSome_iff_exists.mp hsome
  have hsingle : lines b = [b] := lines_eq_singleton (h.newline_not_mem hc hb)
  refine huntouched c hc ?_
  unfold Change.touches Change.rowsBefore
  rw [hb, Option.map_some, Option.getD_some, hsingle, hline, Bool.and_eq_true, decide_eq_true_iff,
    decide_eq_true_iff, List.length_singleton]
  omega

include h hgap in
/-- **Changes of lines that account for a text keep the lines that they do not touch.** -/
theorem LineAudit.keeps : KeepsLines (carry cs) t u := by
  refine .of_shift fun k line hk huntouched => ?_
  obtain ⟨hlt, rfl⟩ := List.getElem?_eq_some_iff.mp hk
  have hnone : '\n' ∉ (lines t)[k] := newline_not_mem_of_mem_lines (List.getElem_mem hlt)
  have hsingle : lines (lines t)[k] = [(lines t)[k]] := lines_eq_singleton hnone
  have hstays : cs.find? (replacesAt (k + 1)) = none := h.find?_replacesAt_eq_none huntouched
  obtain ⟨above, habove⟩ : ∃ above, above = replayFrom gap cs 1 ((lines t).take k) ++
      (cs.filter (insertsAt (k + 1))).flatMap (fun c => c.after.toList ++ gap) := ⟨_, rfl⟩
  have hreplay : replayFrom gap cs 1 (lines t) =
      above ++ (lines t)[k] :: replayFrom gap cs (k + 2) ((lines t).drop (k + 1)) := by
    conv_lhs => rw [← List.take_append_drop k (lines t), List.drop_eq_getElem_cons hlt]
    rw [replayFrom_append, List.length_take_of_le hlt.le, Nat.add_comm 1 k, replayFrom_cons,
      replayLine, hstays, habove]
    simp
  have hlines : lines u = above.flatMap lines ++ (lines t)[k] ::
      (replayFrom gap cs (k + 2) ((lines t).drop (k + 1))).flatMap lines := by
    rw [← h.replay_eq, hreplay, lines_unlines_flatMap (by simp), List.flatMap_append,
      List.flatMap_cons, hsingle]
    rfl
  refine ⟨(above.flatMap lines).length, ?_, ?_, ?_⟩
  · rw [habove, List.flatMap_append, List.length_append, Int.natCast_add,
      h.length_replayFrom_take hgap hlt.le, hgap.length_inserted, shift_succ,
      totalGrowth_filter_line, filter_replacesAt h.distinct, hstays, Option.toList_none,
      totalGrowth_nil]
    omega
  · rw [hlines]
    simp
  · intro hlast
    rw [hlines, List.drop_eq_nil_of_le (by omega)]
    simp [replayFrom]

end Lines

/-! ## Audits of spans -/

section Spans

variable {t u v before after : Text} {cs : List Change} {c : Change} {l : Nat}

/-- The lines from line `l` on that changes do not touch stand in `u` where the changes have moved
them. Where the first line begins in `v` it also begins in `u`. -/
structure Aligned (l : Nat) (cs : List Change) (v u : Text) : Prop where
  le_line : ∀ c ∈ cs, (l : Int) ≤ c.line
  kept : ∀ (k : Nat) (line : Text), (lines v)[k]? = some line →
    (∀ c ∈ cs, ¬ c.touches (l + k)) → ∃ k' : Nat, (k' : Int) = k + shift cs (l + k) ∧
      (k = 0 ↔ k' = 0) ∧ (lines u)[k']? = some line ∧
      (k + 1 = (lines v).length → k' + 1 = (lines u).length)

namespace Aligned

theorem refl (l : Nat) (v : Text) : Aligned l [] v v :=
  ⟨by simp, fun k line hk _ => ⟨k, by simp [shift], Iff.rfl, hk, id⟩⟩

/-- A line below the first one, with other lines in front. -/
theorem kept_below (h : Aligned l cs v u) (t t' : Text) {k : Nat} {line : Text}
    (hk : (lines (t ++ v))[t.count '\n' + (k + 1)]? = some line)
    (huntouched : ∀ c ∈ cs, ¬ c.touches (l + (k + 1))) :
    ∃ k' : Nat, (k' : Int) = t'.count '\n' + (k + 1) + shift cs (l + (k + 1)) ∧ k' ≠ 0 ∧
      (lines (t' ++ u))[k']? = some line ∧
      (t.count '\n' + (k + 1) + 1 = (lines (t ++ v)).length →
        k' + 1 = (lines (t' ++ u)).length) := by
  rw [getElem?_lines_append_right] at hk
  obtain ⟨k', hk', hzero, hline, hlast⟩ := h.kept (k + 1) line hk huntouched
  obtain ⟨j, rfl⟩ : ∃ j, k' = j + 1 := Nat.exists_eq_succ_of_ne_zero fun h0 => by
    rw [← hzero] at h0
    omega
  refine ⟨t'.count '\n' + (j + 1), by push_cast at hk' ⊢; omega, by omega, ?_, ?_⟩
  · rwa [getElem?_lines_append_right]
  · rw [length_lines_append, length_lines_append]
    omega

/-- The same text in front of both. -/
theorem prepend (h : Aligned (l + t.count '\n') cs v u) : Aligned l cs (t ++ v) (t ++ u) := by
  refine ⟨fun c hc => by have := h.le_line c hc; omega, fun k line hk huntouched => ?_⟩
  rcases Nat.lt_trichotomy k (t.count '\n') with hlt | rfl | hlt
  · refine ⟨k, ?_, Iff.rfl, ?_, ?_⟩
    · rw [shift_eq_zero fun c hc => by have := h.le_line c hc; omega, Int.add_zero]
    · rwa [getElem?_lines_append_left t u hlt, ← getElem?_lines_append_left t v hlt]
    · rw [length_lines_append, length_lines_append]
      have := length_lines v
      omega
  -- the first line of the text stands where the first line of the texts behind begins
  · obtain ⟨k', hk', hzero, hhead, hlast⟩ :=
      h.kept 0 _ (List.head?_eq_getElem? ▸ List.head?_eq_some_head (lines_ne_nil v)) huntouched
    obtain rfl := hzero.mp rfl
    refine ⟨t.count '\n', by rw [Nat.add_zero] at hk'; omega, Iff.rfl, ?_, ?_⟩
    · have hsame : (lines u).head (lines_ne_nil u) = (lines v).head (lines_ne_nil v) := by
        rw [← List.head?_eq_getElem?, List.head?_eq_some_head (lines_ne_nil u)] at hhead
        exact Option.some.inj hhead
      rw [getElem?_lines_append_seam] at hk ⊢
      rwa [hsame]
    · rw [length_lines_append, length_lines_append]
      omega
  · obtain ⟨j, rfl⟩ : ∃ j, k = t.count '\n' + (j + 1) := ⟨k - t.count '\n' - 1, by omega⟩
    obtain ⟨k', hk', hne, hkept⟩ := h.kept_below t t hk
      fun c hc => by rw [Nat.add_assoc]; exact huntouched c hc
    rw [Nat.add_assoc] at hk'
    exact ⟨k', by push_cast at hk' ⊢; omega, by omega, hkept⟩

/-- A span gives way to what a change puts there. -/
theorem replace (h : Aligned (l + before.count '\n') cs v u) (hline : c.line = l)
    (hbefore : c.before = some before) (hafter : c.after = some after) :
    Aligned l (c :: cs) (before ++ v) (after ++ u) := by
  have hrowsBefore : c.rowsBefore = before.count '\n' + 1 := by
    rw [Change.rowsBefore, hbefore, Option.map_some, Option.getD_some, length_lines]
  have hgrowth : c.growth = after.count '\n' - before.count '\n' := by
    rw [Change.growth, hrowsBefore, Change.rowsAfter, Change.spaced, hbefore, hafter,
      Option.map_some, Option.getD_some, length_lines, Option.isNone_some, Bool.false_and,
      if_neg Bool.false_ne_true]
    omega
  constructor
  case le_line =>
    refine List.forall_mem_cons.mpr ⟨Int.le_of_eq hline.symm, fun d hd => ?_⟩
    have := h.le_line d hd
    omega
  case kept =>
    intro k line hk huntouched
    rw [List.forall_mem_cons] at huntouched
    obtain ⟨hself, huntouched⟩ := huntouched
    have hbelow : before.count '\n' < k := by
      by_contra hle
      refine hself ?_
      rw [Change.touches, hrowsBefore, hline, Bool.and_eq_true, decide_eq_true_iff,
        decide_eq_true_iff]
      omega
    obtain ⟨j, rfl⟩ : ∃ j, k = before.count '\n' + (j + 1) :=
      ⟨k - before.count '\n' - 1, by omega⟩
    obtain ⟨k', hk', hne, hkept⟩ := h.kept_below before after hk
      fun d hd => by rw [Nat.add_assoc]; exact huntouched d hd
    rw [Nat.add_assoc] at hk'
    refine ⟨k', ?_, by omega, hkept⟩
    rw [shift_cons, if_pos (by omega), hgrowth]
    push_cast at hk' ⊢
    omega

end Aligned

theorem SpanAudit.aligned {k : Nat} (h : SpanAudit t k cs u) (hk : k ≤ t.length) :
    Aligned ((t.take k).count '\n' + 1) cs (t.drop k) u := by
  induction h with
  | done => exact .refl _ _
  | @span k start before after u c cs behind before_eq covers stands line_eq after_eq rest ih =>
    obtain ⟨gap, hgap⟩ : ∃ gap, gap = (t.drop k).take (start - k) := ⟨_, rfl⟩
    have hstart : t.drop start = before ++ t.drop (start + before.length) := by
      obtain ⟨v, hv⟩ := stands
      rw [← List.drop_drop, ← hv, List.drop_left]
    have hlength : start + before.length ≤ t.length := by
      have hprefix := stands.length_le
      have hpositive := List.length_pos_iff.mpr covers
      rw [List.length_drop] at hprefix
      omega
    have hdrop : t.drop k = gap ++ t.drop start := by
      have hsplit := List.take_append_drop (start - k) (t.drop k)
      rw [← hgap, List.drop_drop, Nat.add_sub_cancel' behind] at hsplit
      exact hsplit.symm
    have htake : t.take start = t.take k ++ gap := by
      rw [hgap, ← List.take_add, Nat.add_sub_cancel' behind]
    have htake' : t.take (start + before.length) = t.take start ++ before := by
      rw [List.take_add, hstart, List.take_left]
    have hline : c.line = ((t.take k).count '\n' + 1 + gap.count '\n' : Nat) := by
      rw [line_eq, lineAt_natCast (by omega), htake, List.count_append]
      push_cast
      omega
    rw [← hgap, hdrop, hstart, List.append_assoc]
    refine .prepend (.replace ?_ hline before_eq after_eq)
    have hrest := ih hlength
    rw [htake', htake, List.count_append, List.count_append] at hrest
    have hcount : ∀ a b d : Nat, a + b + d + 1 = a + 1 + b + d := by omega
    rwa [hcount] at hrest

/-- **Changes of spans that account for a text keep the lines that they do not touch.** -/
theorem SpanAudit.keeps (h : SpanAudit t 0 cs u) : KeepsLines (carry cs) t u := by
  have haligned := h.aligned (Nat.zero_le _)
  rw [List.take_zero, List.drop_zero, List.count_nil, Nat.zero_add] at haligned
  refine .of_shift fun k line hk huntouched => ?_
  obtain ⟨k', hk', -, hkept⟩ := haligned.kept k line hk
    fun c hc => by rw [Nat.add_comm]; exact huntouched c hc
  exact ⟨k', by rw [hk', Nat.add_comm 1 k], hkept⟩

end Spans

end Fix

end Mend

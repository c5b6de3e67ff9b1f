import Mathlib.Data.List.Basic
import Mend.Fix.Basic
import Mend.Proofs.Text.Lines
import Mend.Proofs.Text.Scanning

/-!
# Changes as an audit

The changes of a fix are to tell what was done to the text, line by line or span by span, so that
whoever replays them on the text that was given gets the text of the fix.

* `LineAudit`: every change of a line quotes the line that it names, no line is named twice, and to
  replay the changes gives the text. Lines are those of the given text throughout.
* `SpanAudit`: the changes quote spans of the text in order and without overlap, and to put what is
  new in their place gives the text.
* `Rewritten`: how a pass over the lines records its changes; `LineAudit.of_rewritten`,
  `LineAudit.of_insertion`: what is recorded so is an audit.
* `spanAudit_scan`: so is a change for every hit of a pattern.
-/

namespace Mend.Fix

open Text

/-! ## Audits of lines -/

/-- Whether a change puts something above line `n`. -/
def insertsAt (n : Nat) (c : Change) : Bool := c.before.isNone && c.line == n

/-- Whether a change puts something in the place of line `n`, or takes it away. -/
def replacesAt (n : Nat) (c : Change) : Bool := c.before.isSome && c.line == n

/-- What changes make of a line, given with its number: whatever they put above it, with `gap`
behind each, and what they put in its place. A line that no change replaces stays. -/
def replayLine (gap : List Text) (cs : List Change) (row : Text × Nat) : List Text :=
  (cs.filter (insertsAt row.2)).flatMap (fun c => c.after.toList ++ gap) ++
    match cs.find? (replacesAt row.2) with
    | none => [row.1]
    | some c => c.after.toList

/-- What changes make of lines of which the first has the number `n`. -/
def replayFrom (gap : List Text) (cs : List Change) (n : Nat) (ls : List Text) : List Text :=
  (ls.zipIdx n).flatMap (replayLine gap cs)

/-- **Changes of lines that account for a text.** They make `u` of `t`, where `gap` is what follows
an inserted line. -/
structure LineAudit (gap : List Text) (t : Text) (cs : List Change) (u : Text) : Prop where
  /-- What a change says to have stood there is the line with its number. -/
  before_eq : ∀ c ∈ cs, ∀ line, c.before = some line →
    ∃ k : Nat, c.line = k + 1 ∧ (lines t)[k]? = some line
  /-- No two changes are about the same line. -/
  distinct : ((cs.filter (·.before.isSome)).map (·.line)).Nodup
  replay_eq : unlines (replayFrom gap cs 1 (lines t)) = u

/-- A pass over lines that numbers them from `n` on: some lines are kept, and for every other one
there is a change, in order. -/
inductive Rewritten : Nat → List Text → List Change → List Text → Prop
  | nil {n : Nat} : Rewritten n [] [] []
  | keep {n : Nat} {line : Text} {ls out : List Text} {cs : List Change}
      (rest : Rewritten (n + 1) ls cs out) : Rewritten n (line :: ls) cs (line :: out)
  | replace {n : Nat} {line : Text} {ls out : List Text} {c : Change} {cs : List Change}
      (number : c.line = n) (before : c.before = some line)
      (rest : Rewritten (n + 1) ls cs out) :
      Rewritten n (line :: ls) (c :: cs) (c.after.toList ++ out)

namespace Rewritten

variable {n : Nat} {ls ls' out out' : List Text} {cs cs' : List Change} {c : Change}

/-- A pass that changes nothing. -/
theorem refl (n : Nat) (ls : List Text) : Rewritten n ls [] ls := by
  induction ls generalizing n with
  | nil => exact .nil
  | cons line ls ih => exact .keep (ih (n + 1))

theorem append (h : Rewritten n ls cs out) (h' : Rewritten (n + ls.length) ls' cs' out') :
    Rewritten n (ls ++ ls') (cs ++ cs') (out ++ out') := by
  induction h with
  | nil => exact h'
  | @keep n line ls out cs rest ih =>
    rw [List.length_cons, ← Nat.add_assoc, Nat.add_right_comm] at h'
    exact .keep (ih h')
  | @replace n line ls out c cs number before rest ih =>
    rw [List.length_cons, ← Nat.add_assoc, Nat.add_right_comm] at h'
    rw [List.append_assoc]
    exact .replace number before (ih h')

/-- A pass that goes on by a line that it keeps. -/
theorem snoc_keep (h : Rewritten n ls cs out) (line : Text) :
    Rewritten n (ls ++ [line]) cs (out ++ [line]) := by
  have hpass := h.append (.refl _ [line])
  rwa [List.append_nil] at hpass

/-- A pass that goes on by a line that it changes. -/
theorem snoc_replace {line : Text} (h : Rewritten n ls cs out)
    (number : c.line = (n + ls.length : Nat)) (before : c.before = some line) :
    Rewritten n (ls ++ [line]) (cs ++ [c]) (out ++ c.after.toList) := by
  have hpass := h.append (.replace number before .nil)
  rwa [List.append_nil] at hpass

/-- Every change quotes the line that it names. -/
theorem exists_of_mem (h : Rewritten n ls cs out) (hc : c ∈ cs) :
    ∃ (k : Nat) (line : Text), c.line = n + k ∧ c.before = some line ∧ ls[k]? = some line := by
  induction h with
  | nil => exact absurd hc List.not_mem_nil
  | @keep n line ls out cs rest ih =>
    obtain ⟨k, line', hline, hbefore, hk⟩ := ih hc
    exact ⟨k + 1, line', by rw [hline]; push_cast; omega, hbefore, hk⟩
  | @replace n line ls out c' cs number before rest ih =>
    rcases List.mem_cons.mp hc with rfl | hc
    · exact ⟨0, line, by rw [number]; rfl, before, rfl⟩
    · obtain ⟨k, line', hline, hbefore, hk⟩ := ih hc
      exact ⟨k + 1, line', by rw [hline]; push_cast; omega, hbefore, hk⟩

theorem isSome_of_mem (h : Rewritten n ls cs out) (hc : c ∈ cs) : c.before.isSome := by
  obtain ⟨k, line, -, hbefore, -⟩ := h.exists_of_mem hc
  rw [hbefore, Option.isSome_some]

theorem le_of_mem (h : Rewritten n ls cs out) (hc : c ∈ cs) : n ≤ c.line := by
  obtain ⟨k, line, hline, -, -⟩ := h.exists_of_mem hc
  omega

theorem lt_of_mem (h : Rewritten n ls cs out) (hc : c ∈ cs) : c.line < n + ls.length := by
  obtain ⟨k, line, hline, -, hk⟩ := h.exists_of_mem hc
  have hlt : k < ls.length := (List.getElem?_eq_some_iff.mp hk).1
  omega

/-- The changes are about different lines. -/
theorem nodup (h : Rewritten n ls cs out) : (cs.map (·.line)).Nodup := by
  induction h with
  | nil => exact List.nodup_nil
  | keep rest ih => exact ih
  | @replace n line ls out c cs number before rest ih =>
    rw [List.map_cons, List.nodup_cons]
    refine ⟨fun hmem => ?_, ih⟩
    obtain ⟨c', hc', hsame⟩ := List.mem_map.mp hmem
    have hle := rest.le_of_mem hc'
    rw [hsame, number] at hle
    omega

end Rewritten

/-! ### Replaying a pass -/

section Replay

variable {gap : List Text} {n : Nat} {line : Text} {ls ls' out out' : List Text}
  {cs cs' : List Change} {c : Change}

theorem replayFrom_cons : replayFrom gap cs n (line :: ls) =
    replayLine gap cs (line, n) ++ replayFrom gap cs (n + 1) ls := rfl

theorem replayFrom_append : replayFrom gap cs n (ls ++ ls') =
    replayFrom gap cs n ls ++ replayFrom gap cs (n + ls.length) ls' := by
  rw [replayFrom, List.zipIdx_append, List.flatMap_append]
  rfl

theorem filter_insertsAt_eq_nil (h : ∀ c ∈ cs, c.before.isSome) (n : Nat) :
    cs.filter (insertsAt n) = [] := by
  rw [List.filter_eq_nil_iff]
  intro c hc
  obtain ⟨line, hline⟩ := Option.isSome_iff_exists.mp (h c hc)
  simp [insertsAt, hline]

theorem find?_replacesAt_eq_none (h : ∀ c ∈ cs, c.line ≠ n) : cs.find? (replacesAt n) = none := by
  rw [List.find?_eq_none]
  intro c hc
  simp [replacesAt, h c hc]

/-- A line that no change names stays. -/
theorem replayLine_keep (hsome : ∀ c ∈ cs, c.before.isSome) (hother : ∀ c ∈ cs, c.line ≠ n) :
    replayLine gap cs (line, n) = [line] := by
  rw [replayLine, filter_insertsAt_eq_nil hsome, find?_replacesAt_eq_none hother]
  rfl

/-- A line gives way to what the first change that names it puts there. -/
theorem replayLine_replace {above : List Change} (hsome : ∀ c' ∈ above ++ c :: cs, c'.before.isSome)
    (hother : ∀ c' ∈ above, c'.line ≠ n) (number : c.line = n) :
    replayLine gap (above ++ c :: cs) (line, n) = c.after.toList := by
  have hreplaces : replacesAt n c = true := by
    have hbefore := hsome c (List.mem_append_right above List.mem_cons_self)
    simp [replacesAt, hbefore, number]
  have hfound : (above ++ c :: cs).find? (replacesAt n) = some c := by
    rw [List.find?_append, find?_replacesAt_eq_none hother, Option.none_or,
      List.find?_cons_of_pos hreplaces]
  rw [replayLine, filter_insertsAt_eq_nil hsome, hfound]
  rfl

/-- To replay the changes of a pass gives what the pass left. Changes of lines further up do not
matter. -/
theorem Rewritten.replayFrom_eq (h : Rewritten n ls cs out) :
    ∀ {above : List Change}, (∀ c ∈ above, c.before.isSome ∧ c.line < n) →
      replayFrom gap (above ++ cs) n ls = out := by
  induction h with
  | nil => exact fun _ => rfl
  | @keep n line ls out cs rest ih =>
    intro above habove
    have hsome : ∀ c ∈ above ++ cs, c.before.isSome := fun c hc =>
      (List.mem_append.mp hc).elim (fun hc => (habove c hc).1) rest.isSome_of_mem
    have hother : ∀ c ∈ above ++ cs, c.line ≠ n := by
      intro c hc
      rcases List.mem_append.mp hc with hc | hc
      · exact Int.ne_of_lt (habove c hc).2
      · have hle := rest.le_of_mem hc
        omega
    have hrest : replayFrom gap (above ++ cs) (n + 1) ls = out :=
      ih fun c hc => ⟨(habove c hc).1, by have hlt := (habove c hc).2; omega⟩
    rw [replayFrom_cons, hrest, replayLine_keep hsome hother]
    rfl
  | @replace n line ls out c cs number before rest ih =>
    intro above habove
    have hpass : Rewritten n (line :: ls) (c :: cs) (c.after.toList ++ out) :=
      .replace number before rest
    have hsome : ∀ c' ∈ above ++ c :: cs, c'.before.isSome := fun c' hc' =>
      (List.mem_append.mp hc').elim (fun hc' => (habove c' hc').1) hpass.isSome_of_mem
    have hother : ∀ c' ∈ above, c'.line ≠ n := fun c' hc' => Int.ne_of_lt (habove c' hc').2
    -- the change of this line is one further up for the lines below
    have hrest : replayFrom gap (above ++ c :: cs) (n + 1) ls = out := by
      rw [← List.singleton_append, ← List.append_assoc]
      refine ih fun c' hc' => ?_
      rcases List.mem_append.mp hc' with hc' | hc'
      · exact ⟨(habove c' hc').1, by have hlt := (habove c' hc').2; omega⟩
      · obtain rfl := List.mem_singleton.mp hc'
        exact ⟨hpass.isSome_of_mem List.mem_cons_self, by rw [number]; omega⟩
    rw [replayFrom_cons, hrest, replayLine_replace hsome hother number]

/-- A pass over lines is accounted for by its changes. -/
theorem LineAudit.of_rewritten {t : Text} (h : Rewritten 1 (lines t) cs out) :
    LineAudit gap t cs (unlines out) where
  before_eq c hc line hline := by
    obtain ⟨k, line', hnumber, hbefore, hk⟩ := h.exists_of_mem hc
    obtain rfl := Option.some.inj (hline.symm.trans hbefore)
    exact ⟨k, by rw [hnumber]; push_cast; omega, hk⟩
  distinct := by
    rw [List.filter_eq_self.mpr fun c hc => h.isSome_of_mem hc]
    exact h.nodup
  replay_eq := by
    have hreplay : replayFrom gap ([] ++ cs) 1 (lines t) = out := h.replayFrom_eq (by simp)
    rw [List.nil_append] at hreplay
    rw [hreplay]

theorem LineAudit.nothing (t : Text) : LineAudit gap t [] t := by
  have h : LineAudit gap t [] (unlines (lines t)) := .of_rewritten (.refl 1 (lines t))
  rwa [unlines_lines] at h

/-! ### Insertions -/

/-- An insertion matters to the line that it names only. -/
theorem replayLine_insertion (hcs : ∀ c ∈ cs, c.before.isSome) (hc : c.before = none)
    (row : Text × Nat) :
    replayLine gap (cs ++ [c]) row =
      (if c.line = row.2 then c.after.toList ++ gap else []) ++ replayLine gap cs row := by
  have hreplaces : (cs ++ [c]).find? (replacesAt row.2) = cs.find? (replacesAt row.2) := by
    have hnone : [c].find? (replacesAt row.2) = none := by simp [replacesAt, hc]
    rw [List.find?_append, hnone, Option.or_none]
  rw [replayLine, replayLine, hreplaces, List.filter_append, filter_insertsAt_eq_nil hcs]
  by_cases hline : c.line = row.2
  · have hsingle : [c].filter (insertsAt row.2) = [c] := by simp [insertsAt, hc, hline]
    rw [if_pos hline, hsingle]
    simp
  · have hnone : [c].filter (insertsAt row.2) = [] := by simp [insertsAt, hline]
    rw [if_neg hline, hnone]
    simp

theorem replayFrom_insertion_elsewhere (hcs : ∀ c ∈ cs, c.before.isSome) (hc : c.before = none)
    (elsewhere : c.line < n ∨ n + ls.length ≤ c.line) :
    replayFrom gap (cs ++ [c]) n ls = replayFrom gap cs n ls := by
  refine List.flatMap_congr fun row hrow => ?_
  have hle := List.le_snd_of_mem_zipIdx hrow
  have hlt := List.snd_lt_add_of_mem_zipIdx hrow
  rw [replayLine_insertion hcs hc, if_neg (by omega), List.nil_append]

/-- An insertion above the first of some lines. -/
theorem replayFrom_insertion (hcs : ∀ c ∈ cs, c.before.isSome) (hc : c.before = none)
    (number : c.line = n) (hls : ls ≠ []) :
    replayFrom gap (cs ++ [c]) n ls = c.after.toList ++ gap ++ replayFrom gap cs n ls := by
  obtain ⟨line, ls, rfl⟩ := List.exists_cons_of_ne_nil hls
  have hrest : replayFrom gap (cs ++ [c]) (n + 1) ls = replayFrom gap cs (n + 1) ls :=
    replayFrom_insertion_elsewhere hcs hc (Or.inl (by omega))
  rw [replayFrom_cons, replayFrom_cons, hrest, replayLine_insertion hcs hc, if_pos number,
    List.append_assoc]

/-- A pass over lines with an insertion above one of them is accounted for by its changes and the
insertion. -/
theorem LineAudit.of_insertion {t : Text} (hlines : lines t = ls ++ ls') (hls' : ls' ≠ [])
    (h : Rewritten 1 ls cs out) (h' : Rewritten (1 + ls.length) ls' cs' out')
    (hc : c.before = none) (number : c.line = (1 + ls.length : Nat)) :
    LineAudit gap t (cs ++ cs' ++ [c]) (unlines (out ++ (c.after.toList ++ gap ++ out'))) := by
  have hpass : Rewritten 1 (lines t) (cs ++ cs') (out ++ out') := hlines ▸ h.append h'
  have hsome : ∀ c ∈ cs ++ cs', c.before.isSome := fun c hc => hpass.isSome_of_mem hc
  have haudit : LineAudit gap t (cs ++ cs') (unlines (out ++ out')) := .of_rewritten hpass
  constructor
  case before_eq =>
    intro c' hc' line hline
    rcases List.mem_append.mp hc' with hc' | hc'
    · exact haudit.before_eq c' hc' line hline
    · obtain rfl := List.mem_singleton.mp hc'
      rw [hc] at hline
      exact absurd hline (by simp)
  case distinct =>
    have hnone : [c].filter (·.before.isSome) = [] := by simp [hc]
    rw [List.filter_append, hnone, List.append_nil]
    exact haudit.distinct
  case replay_eq =>
    have hbehind : replayFrom gap (cs ++ cs') (1 + ls.length) ls' = out' :=
      h'.replayFrom_eq fun c hc => ⟨h.isSome_of_mem hc, by exact_mod_cast h.lt_of_mem hc⟩
    have hfront : replayFrom gap (cs ++ cs') 1 ls = out := by
      have hall : replayFrom gap ([] ++ (cs ++ cs')) 1 (lines t) = out ++ out' :=
        hpass.replayFrom_eq (by simp)
      rw [List.nil_append, hlines, replayFrom_append, hbehind] at hall
      exact List.append_cancel_right hall
    have hinserted : replayFrom gap (cs ++ cs' ++ [c]) (1 + ls.length) ls' =
        c.after.toList ++ gap ++ out' := by
      rw [replayFrom_insertion hsome hc number hls', hbehind]
    have hkept : replayFrom gap (cs ++ cs' ++ [c]) 1 ls = out := by
      rw [replayFrom_insertion_elsewhere hsome hc (Or.inr (by omega)), hfront]
    rw [hlines, replayFrom_append, hkept, hinserted]

end Replay

/-! ## Audits of spans -/

/-- **Changes of spans that account for a text.** From offset `k` of `t` on, each change quotes a
span that starts behind the one before, on the line that the change names, and `u` is what is left
of `t` from `k` on when every span gives way to what the change puts there. -/
inductive SpanAudit (t : Text) : Nat → List Change → Text → Prop
  | done {k : Nat} : SpanAudit t k [] (t.drop k)
  | span {k start : Nat} {before after u : Text} {c : Change} {cs : List Change}
      (behind : k ≤ start) (before_eq : c.before = some before) (covers : before ≠ [])
      (stands : before <+: t.drop start) (line_eq : c.line = lineAt t start)
      (after_eq : c.after = some after) (rest : SpanAudit t (start + before.length) cs u) :
      SpanAudit t k (c :: cs) ((t.drop k).take (start - k) ++ after ++ u)

section Spans

variable {t u v : Text} {k : Nat} {d : Char} {cs : List Change}

/-- A character in front of all spans stays. -/
theorem SpanAudit.skip (h : SpanAudit t (k + 1) cs u) (hd : t.drop k = d :: v) :
    SpanAudit t k cs (d :: u) := by
  have hv : t.drop (k + 1) = v := by rw [← List.drop_drop, hd, List.drop_one, List.tail_cons]
  cases h with
  | done =>
    rw [hv, ← hd]
    exact .done
  | @span _ start _ _ _ _ _ behind before_eq covers stands line_eq after_eq rest =>
    have hgap : d :: (t.drop (k + 1)).take (start - (k + 1)) = (t.drop k).take (start - k) := by
      rw [hv, hd, show start - k = start - (k + 1) + 1 by omega, List.take_succ_cons]
    rw [← List.cons_append, ← List.cons_append, hgap]
    exact .span (by omega) before_eq covers stands line_eq after_eq rest

theorem lineAt_natCast (hk : k ≤ t.length) : lineAt t k = (t.take k).count '\n' + 1 := by
  have hposition : t.position k = k := by
    rw [position, if_neg (by omega), Int.toNat_natCast, min_eq_left hk]
  rw [lineAt, hposition]

theorem lineAt_append (a b : Text) : lineAt (a ++ b) a.length = a.count '\n' + 1 := by
  rw [lineAt_natCast (by simp), List.take_left]

variable {p : Pattern} {b : Option Char} {l n : Nat} {ps : List Piece} {f : Hit → Text}
  {change : Hit → Change}

/-- The hits of a scan from offset `k` on are accounted for by a change for each. -/
theorem spanAudit_of_scanned (hbefore : ∀ h, (change h).before = some h.covered)
    (hafter : ∀ h, (change h).after = some (f h)) (hline : ∀ h, (change h).line = h.line)
    (s : Scanned p b l n v ps) : ∀ {k : Nat}, t.drop k = v → (t.take k).count '\n' + 1 = l →
      SpanAudit t k ((Piece.hits ps).map change) (Piece.replace f ps) := by
  induction s with
  | nil =>
    intro k hv _
    rw [Piece.replace_nil, ← hv]
    exact .done
  | @plain b l n c v ps unread rest ih =>
    intro k hv hl
    have hnext : t.drop (k + 1) = v := by rw [← List.drop_drop, hv, List.drop_one, List.tail_cons]
    have htake : t.take (k + 1) = t.take k ++ [c] := by
      rw [List.take_add, hv, List.take_succ_cons, List.take_zero]
    refine SpanAudit.skip (ih hnext ?_) hv
    rw [htake, List.count_append, ← hl]
    by_cases hc : c = '\n'
    · simp [hc]
    · simp [hc]
  | @hit b l n u v ps covers read rest ih =>
    intro k hv hl
    have hk : k ≤ t.length := by
      by_contra hlong
      rw [List.drop_eq_nil_of_le (Nat.le_of_not_le hlong)] at hv
      exact covers (List.append_eq_nil_iff.mp hv.symm).1
    have hnext : t.drop (k + u.length) = v := by rw [← List.drop_drop, hv, List.drop_left]
    have htake : t.take (k + u.length) = t.take k ++ u := by
      rw [List.take_add, hv, List.take_left]
    have hrest := ih hnext (by rw [htake, List.count_append, ← hl]; omega)
    have hstands : u <+: t.drop k := hv ▸ List.prefix_append u v
    have hnumber : (change ⟨n, l, u⟩).line = lineAt t k := by rw [hline, lineAt_natCast hk, hl]
    have hspan := SpanAudit.span (le_refl k) (hbefore ⟨n, l, u⟩) covers hstands hnumber
      (hafter ⟨n, l, u⟩) hrest
    rw [Nat.sub_self, List.take_zero, List.nil_append] at hspan
    exact hspan

/-- **A change for every hit of a pattern accounts for the replacement of the hits.** -/
theorem spanAudit_scan [∀ b, Reader.Within (p b)]
    (hbefore : ∀ h, (change h).before = some h.covered)
    (hafter : ∀ h, (change h).after = some (f h)) (hline : ∀ h, (change h).line = h.line)
    (t : Text) : SpanAudit t 0 ((Piece.hits (scan p t)).map change) (Piece.replace f (scan p t)) :=
  spanAudit_of_scanned hbefore hafter hline (scanned_scan p t) List.drop_zero (by simp)

theorem SpanAudit.nothing (t : Text) : SpanAudit t 0 [] t := .done (k := 0)

end Spans

end Mend.Fix

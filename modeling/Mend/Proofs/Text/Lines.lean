import Mathlib.Data.List.TakeWhile
import Mend.Text.Basic

/-!
# Lines, pieces and trimmed texts

A text is determined by its lines, and every nonempty list of texts without newlines is the list of
lines of a text. So two such lists are told apart by the texts they make, which is how a change to
one line is seen to change the text.

* `lines_unlines`, `unlines_ne`: lines that are put together are the lines of the text they make.
* `lines_unlines_flatMap`: the lines of texts that are put together are those of each.
* `exists_lines_append`: where one text follows another one, only one line changes.
* `contains_iff`: what a text contains is an infix of it.
* `infix_append_cons_iff`, `infix_iff_lines`: what holds no newline does not reach across one.
* `trim_append`: white space on either side of a trimmed text is trimmed away.
-/

namespace Mend.Text

/-! ## Pieces -/

section Pieces

variable {α : Type} {t w : List α} {a c : α}

theorem mem_of_mem_intercalate {s : List α} :
    ∀ {ws : List (List α)}, c ∈ List.intercalate s ws → c ∈ s ∨ ∃ w ∈ ws, c ∈ w
  | [], h => by simp at h
  | [w], h => .inr ⟨w, by simp, by simpa using h⟩
  | w :: w' :: ws, h => by
    rw [List.intercalate_cons_cons, List.mem_append, List.mem_append] at h
    obtain (h | h) | h := h
    · exact .inr ⟨w, by simp, h⟩
    · exact .inl h
    · obtain h | ⟨w'', hw, hc⟩ := mem_of_mem_intercalate h
      · exact .inl h
      · exact .inr ⟨w'', List.mem_cons_of_mem _ hw, hc⟩

theorem mem_intercalate {s : List α} : ∀ {ws : List (List α)}, w ∈ ws → c ∈ w →
    c ∈ List.intercalate s ws
  | [], h, _ => by simp at h
  | [w'], h, hc => by
    obtain rfl : w = w' := by simpa using h
    simpa using hc
  | w' :: w'' :: ws, h, hc => by
    rw [List.intercalate_cons_cons, List.mem_append, List.mem_append]
    obtain rfl | h := List.mem_cons.mp h
    · exact .inl (.inl hc)
    · exact .inr (mem_intercalate h hc)

variable [DecidableEq α]

theorem not_mem_of_mem_splitOn (h : w ∈ t.splitOn a) : a ∉ w := by
  induction t generalizing w with
  | nil =>
    obtain rfl : w = [] := by simpa using h
    simp
  | cons d t ih =>
    rw [List.splitOn_cons_eq_if_modifyHead] at h
    split at h
    · obtain rfl | h := List.mem_cons.mp h
      · simp
      · exact ih h
    · next hd =>
      obtain ⟨x, xs, hx⟩ := List.exists_cons_of_ne_nil (List.splitOn_ne_nil a t)
      rw [hx, List.modifyHead_cons] at h
      obtain rfl | h := List.mem_cons.mp h
      · have hxa := ih (w := x) (by simp [hx])
        simp only [beq_iff_eq] at hd
        simp [hxa, Ne.symm hd]
      · exact ih (by simp [hx, h])

theorem mem_of_mem_splitOn (h : w ∈ t.splitOn a) (hc : c ∈ w) : c ∈ t := by
  have e : List.intercalate [a] (t.splitOn a) = t := List.intercalate_splitOn a
  exact e ▸ mem_intercalate h hc

end Pieces

/-! ## Lines -/

section Lines

variable {t : Text} {ls : List Text}

theorem lines_ne_nil (t : Text) : lines t ≠ [] := List.splitOn_ne_nil _ t

theorem lines_eq_singleton {line : Text} (h : '\n' ∉ line) : lines line = [line] :=
  List.splitOn_eq_singleton h

theorem newline_not_mem_of_mem_lines {line : Text} (h : line ∈ lines t) : '\n' ∉ line :=
  not_mem_of_mem_splitOn h

theorem newline_not_mem_getD (t : Text) (k : Nat) : '\n' ∉ (lines t).getD k [] := by
  rw [List.getD_eq_getElem?_getD]
  cases h : (lines t)[k]? with
  | none => simp
  | some line => exact newline_not_mem_of_mem_lines (List.mem_of_getElem? h)

/-- **Lines that are put together are the lines of the text they make**, if there are any. -/
theorem lines_unlines (nonempty : ls ≠ []) (h : ∀ line ∈ ls, '\n' ∉ line) :
    lines (unlines ls) = ls :=
  List.splitOn_intercalate '\n' h nonempty

/-- Other lines make another text. -/
theorem unlines_ne (nonempty : ls ≠ []) (h : ∀ line ∈ ls, '\n' ∉ line) (ne : ls ≠ lines t) :
    unlines ls ≠ t := by
  rintro rfl
  exact ne (lines_unlines nonempty h).symm

end Lines

/-- Lines of which one is rewritten make another text. -/
theorem unlines_map_ne {f : Text → Text} (h : ∀ line ∈ lines t, '\n' ∉ f line)
    (ne : ∃ line ∈ lines t, f line ≠ line) : unlines ((lines t).map f) ≠ t := by
  refine unlines_ne (by simp [lines_ne_nil]) (by simpa using h) fun e => ?_
  obtain ⟨line, hline, hne⟩ := ne
  have hid : (lines t).map f = (lines t).map id := by rw [e, List.map_id]
  exact hne (List.map_inj_left.mp hid line hline)

theorem prefix_unlines (line : Text) (ls : List Text) : line <+: unlines (line :: ls) := by
  cases ls with
  | nil => simp [unlines]
  | cons line' ls =>
    rw [unlines, List.intercalate_cons_cons, List.append_assoc]
    exact List.prefix_append _ _

theorem unlines_append {ls ls' : List Text} (h : ls ≠ []) (h' : ls' ≠ []) :
    unlines (ls ++ ls') = unlines ls ++ '\n' :: unlines ls' := by
  induction ls with
  | nil => exact absurd rfl h
  | cons line ls ih =>
    cases ls with
    | nil =>
      obtain ⟨line', rest, rfl⟩ := List.exists_cons_of_ne_nil h'
      simp [unlines, List.intercalate_cons_cons]
    | cons line' ls =>
      have ih := ih (List.cons_ne_nil _ _)
      rw [unlines] at ih ⊢
      rw [List.cons_append, List.cons_append, List.intercalate_cons_cons, ← List.cons_append, ih]
      simp [unlines, List.intercalate_cons_cons]

theorem append_unlines (p q : Text) (ls : List Text) :
    p ++ unlines (q :: ls) = unlines ((p ++ q) :: ls) := by
  cases ls <;> simp [unlines, List.intercalate_cons_cons]

/-- Texts that are put together have one line in common. -/
theorem unlines_append_unlines (ls ls' : List Text) (p q : Text) :
    unlines (ls ++ [p]) ++ unlines (q :: ls') = unlines (ls ++ (p ++ q) :: ls') := by
  by_cases h : ls = []
  · rw [h, List.nil_append, List.nil_append, ← append_unlines]
    simp [unlines]
  · rw [unlines_append h (List.cons_ne_nil _ _), unlines_append h (List.cons_ne_nil _ _),
      ← append_unlines]
    simp [unlines]

/-- The last line of a text is its end. -/
theorem unlines_concat (ls : List Text) (line : Text) :
    unlines (ls ++ [line]) = unlines (ls ++ [[]]) ++ line := by
  have h := unlines_append_unlines ls [] [] line
  simpa [unlines] using h.symm

/-- Lines that are put together among others stand where they would stand by themselves. -/
theorem unlines_unlines {block : List Text} (h : block ≠ []) (ls ls' : List Text) :
    unlines (ls ++ unlines block :: ls') = unlines (ls ++ block ++ ls') := by
  have hsingle : unlines [unlines block] = unlines block := by simp [unlines]
  have hbehind : unlines (unlines block :: ls') = unlines (block ++ ls') := by
    by_cases hls' : ls' = []
    · rw [hls', List.append_nil, hsingle]
    · rw [← List.singleton_append, unlines_append (List.cons_ne_nil _ _) hls',
        unlines_append h hls', hsingle]
  rw [List.append_assoc]
  by_cases hls : ls = []
  · rw [hls, List.nil_append, List.nil_append, hbehind]
  · rw [unlines_append hls (List.cons_ne_nil _ _), hbehind,
      unlines_append hls (List.append_ne_nil_of_left_ne_nil h _)]

/-- A newline ends a line. -/
theorem lines_append_newline (t u : Text) : lines (t ++ '\n' :: u) = lines t ++ lines u :=
  List.splitOn_append_cons_self t u

/-- The lines of texts that are put together are those of each. -/
theorem lines_unlines_flatMap {ts : List Text} (h : ts ≠ []) :
    lines (unlines ts) = ts.flatMap lines := by
  induction ts with
  | nil => exact absurd rfl h
  | cons t ts ih =>
    by_cases hts : ts = []
    · simp [hts, unlines]
    · rw [← List.singleton_append, unlines_append (List.cons_ne_nil _ _) hts, lines_append_newline,
        ih hts]
      simp [unlines]

theorem lines_cons (c : Char) (t : Text) :
    lines (c :: t) = if c = '\n' then [] :: lines t else (lines t).modifyHead (c :: ·) := by
  have h := List.splitOn_cons_eq_if_modifyHead (a := '\n') c t
  simp only [beq_iff_eq] at h
  exact h

theorem length_lines (t : Text) : (lines t).length = t.count '\n' + 1 := by
  induction t with
  | nil => rfl
  | cons c t ih =>
    by_cases hc : c = '\n'
    · rw [lines_cons, if_pos hc, List.length_cons, ih, hc, List.count_cons_self]
    · rw [lines_cons, if_neg hc, List.length_modifyHead, ih, List.count_cons_of_ne hc]

/-- The last line of a text and the first line of another one behind it are one line. -/
theorem exists_lines_append (t u : Text) :
    ∃ init last head tail, lines t = init ++ [last] ∧ lines u = head :: tail ∧
      lines (t ++ u) = init ++ (last ++ head) :: tail := by
  obtain ⟨head, tail, hu⟩ := List.exists_cons_of_ne_nil (lines_ne_nil u)
  induction t with
  | nil => exact ⟨[], [], head, tail, rfl, hu, hu⟩
  | cons c t ih =>
    obtain ⟨init, last, head', tail', ht, hu', htu⟩ := ih
    rw [List.cons_append, lines_cons, lines_cons, ht, htu]
    split
    · exact ⟨[] :: init, last, head', tail', rfl, hu', rfl⟩
    · cases init with
      | nil => exact ⟨[], c :: last, head', tail', rfl, hu', rfl⟩
      | cons line init => exact ⟨(c :: line) :: init, last, head', tail', rfl, hu', rfl⟩

theorem length_of_lines_eq {init : List Text} {last : Text} (h : lines t = init ++ [last]) :
    init.length = t.count '\n' := by
  have hlength := length_lines t
  rwa [h, List.length_append, List.length_singleton, Nat.add_right_cancel_iff] at hlength

section Seam

variable (t u : Text) {k : Nat}

/-- Where two texts are put together, the lines of the first one but the last stay. -/
theorem getElem?_lines_append_left (hk : k < t.count '\n') :
    (lines (t ++ u))[k]? = (lines t)[k]? := by
  obtain ⟨init, last, head, tail, ht, -, htu⟩ := exists_lines_append t u
  have hlength := length_of_lines_eq ht
  rw [htu, ht, List.getElem?_append_left (by omega), List.getElem?_append_left (by omega)]

/-- The last line of the first one and the first line of the second one are one line. -/
theorem getElem?_lines_append_seam : (lines (t ++ u))[t.count '\n']? =
    some ((lines t).getLast (lines_ne_nil t) ++ (lines u).head (lines_ne_nil u)) := by
  obtain ⟨init, last, head, tail, ht, hu, htu⟩ := exists_lines_append t u
  have hlength := length_of_lines_eq ht
  simp only [htu, ht, hu, ← hlength]
  simp

/-- The lines of the second one but the first stand behind that line. -/
theorem getElem?_lines_append_right (k : Nat) :
    (lines (t ++ u))[t.count '\n' + (k + 1)]? = (lines u)[k + 1]? := by
  obtain ⟨init, last, head, tail, ht, hu, htu⟩ := exists_lines_append t u
  have hlength := length_of_lines_eq ht
  rw [htu, hu, ← hlength, List.getElem?_append_right (by omega), Nat.add_sub_cancel_left,
    List.getElem?_cons_succ, List.getElem?_cons_succ]

theorem length_lines_append : (lines (t ++ u)).length = t.count '\n' + (lines u).length := by
  rw [length_lines, length_lines, List.count_append, Nat.add_assoc]

end Seam

/-! ## Texts in texts -/

/-- What a text contains is an infix of it. -/
theorem contains_iff {needle t : Text} : contains needle t ↔ needle <:+: t := by
  induction t with
  | nil => simp [contains]
  | cons c t ih =>
    rw [contains, Bool.or_eq_true, ih, List.isPrefixOf_iff_prefix, List.infix_cons_iff]

theorem prefix_cons_of_not_mem {w b : Text} {c : Char} (hc : c ∉ w) (h : w <+: c :: b) :
    w = [] := by
  cases w with
  | nil => rfl
  | cons d w => exact absurd (List.cons_prefix_cons.mp h).1 (fun e => hc (by simp [e]))

theorem prefix_append_cons_iff {w a b : Text} {c : Char} (hc : c ∉ w) :
    w <+: a ++ c :: b ↔ w <+: a := by
  refine ⟨fun h => ?_, fun h => h.trans (List.prefix_append a _)⟩
  obtain ha | ⟨z, rfl⟩ := List.prefix_or_prefix_of_prefix h (List.prefix_append a _)
  · exact ha
  · have hz : z <+: c :: b := (List.prefix_append_right_inj a).mp h
    simp [prefix_cons_of_not_mem (fun h => hc (List.mem_append_right a h)) hz]

/-- What a text begins with and holds no newline is in the first line. -/
theorem prefix_line_of_prefix_unlines {w line : Text} {ls : List Text} (hw : '\n' ∉ w)
    (h : w <+: unlines (line :: ls)) : w <+: line := by
  cases ls with
  | nil => simpa [unlines] using h
  | cons line' ls =>
    rw [← List.singleton_append, unlines_append (by simp) (by simp)] at h
    simpa [unlines] using (prefix_append_cons_iff hw).mp h

/-- What does not hold a character does not reach across one. -/
theorem infix_append_cons_iff {w a b : Text} {c : Char} (hc : c ∉ w) :
    w <:+: a ++ c :: b ↔ w <:+: a ∨ w <:+: b := by
  constructor
  · intro h
    obtain h | h | ⟨w₁, w₂, rfl, h₁, h₂⟩ := List.infix_append_iff.mp h
    · exact .inl h
    · obtain h | h := List.infix_cons_iff.mp h
      · rw [prefix_cons_of_not_mem hc h]
        exact .inl (List.nil_infix)
      · exact .inr h
    · rw [prefix_cons_of_not_mem (fun h => hc (List.mem_append_right _ h)) h₂, List.append_nil]
      exact .inl h₁.isInfix
  · rintro (h | h)
    · exact h.trans (List.prefix_append _ _).isInfix
    · exact h.trans ((List.suffix_cons c b).isInfix.trans (List.suffix_append _ _).isInfix)

/-- **What is in one line is in the text**, and nothing else without a newline is. -/
theorem infix_unlines_iff {w : Text} (hw : '\n' ∉ w) {ls : List Text} (nonempty : ls ≠ []) :
    w <:+: unlines ls ↔ ∃ line ∈ ls, w <:+: line := by
  induction ls with
  | nil => exact absurd rfl nonempty
  | cons line ls ih =>
    cases ls with
    | nil => simp [unlines]
    | cons line' ls =>
      have hcut : unlines (line :: line' :: ls) = line ++ '\n' :: unlines (line' :: ls) := by
        simp [unlines, List.intercalate_cons_cons]
      rw [hcut, infix_append_cons_iff hw, ih (List.cons_ne_nil _ _)]
      simp

theorem infix_iff_lines {w : Text} (hw : '\n' ∉ w) {t : Text} :
    w <:+: t ↔ ∃ line ∈ lines t, w <:+: line := by
  rw [← infix_unlines_iff hw (lines_ne_nil t), unlines_lines]

/-! ## White space at the ends -/

/-- No white space at either end. -/
def Trimmed (t : Text) : Prop := ¬ t.head?.any isBlank ∧ ¬ t.getLast?.any isBlank

theorem trimRight_isPrefix (t : Text) : trimRight t <+: t := by
  rw [trimRight, ← List.reverse_suffix, List.reverse_reverse]
  exact List.dropWhile_suffix _

theorem trim_isInfix (t : Text) : trim t <:+: t :=
  (trimRight_isPrefix _).isInfix.trans (List.dropWhile_suffix _).isInfix

theorem not_mem_trim {c : Char} {t : Text} (h : c ∉ t) : c ∉ trim t :=
  fun hc => h ((trim_isInfix t).subset hc)

theorem mem_trim {c : Char} {t : Text} (h : c ∈ t) (hc : ¬ isBlank c) : c ∈ trim t := by
  have hdrop : ∀ {t : Text}, c ∈ t → c ∈ t.dropWhile isBlank := by
    intro t h
    rw [← List.takeWhile_append_dropWhile (p := isBlank) (l := t)] at h
    exact (List.mem_append.mp h).resolve_left fun h => hc (List.mem_takeWhile_imp h)
  rw [trim, trimRight, List.mem_reverse]
  exact hdrop (List.mem_reverse.mpr (hdrop h))

theorem not_mem_indent {c : Char} {line : Text} (h : c ∉ line) : c ∉ indent line :=
  fun hc => h ((List.takeWhile_prefix isBlank).subset hc)

theorem trimLeft_eq {t : Text} (h : ¬ t.head?.any isBlank) : trimLeft t = t := by
  cases t with
  | nil => rfl
  | cons c t => simp_all [trimLeft]

theorem trimRight_eq {t : Text} (h : ¬ t.getLast?.any isBlank) : trimRight t = t := by
  have hl := trimLeft_eq (t := t.reverse) (by rwa [List.head?_reverse])
  rw [trimLeft] at hl
  rw [trimRight, hl, List.reverse_reverse]

theorem trimLeft_append {g : Text} (hg : ∀ c ∈ g, isBlank c) (t : Text) :
    trimLeft (g ++ t) = trimLeft t := List.dropWhile_append_of_pos hg

theorem trimRight_append {g : Text} (hg : ∀ c ∈ g, isBlank c) (t : Text) :
    trimRight (t ++ g) = trimRight t := by
  rw [trimRight, List.reverse_append, List.dropWhile_append_of_pos (by simpa using hg), trimRight]

theorem trimmed_trim (t : Text) : Trimmed (trim t) := by
  have hleft : ¬ (trimLeft t).head?.any isBlank := by
    have h := List.head?_dropWhile_not isBlank t
    rw [trimLeft]
    cases hd : (t.dropWhile isBlank).head? with
    | none => simp
    | some c => simpa [hd] using h
  have hright : ¬ (trim t).getLast?.any isBlank := by
    have h := List.head?_dropWhile_not isBlank (trimLeft t).reverse
    rw [trim, trimRight, List.getLast?_reverse]
    cases hd : ((trimLeft t).reverse.dropWhile isBlank).head? with
    | none => simp
    | some c => simpa [hd] using h
  refine ⟨?_, hright⟩
  obtain ⟨s, hs⟩ := trimRight_isPrefix (trimLeft t)
  rw [← hs, List.head?_append] at hleft
  cases hd : (trim t).head? with
  | none => simp
  | some c =>
    rw [trim] at hd
    simpa [hd] using hleft

/-- White space on either side of a trimmed text is trimmed away. -/
theorem trim_append {g g' t : Text} (hg : ∀ c ∈ g, isBlank c) (hg' : ∀ c ∈ g', isBlank c)
    (ht : Trimmed t) : trim (g ++ (t ++ g')) = t := by
  rw [trim, trimLeft_append hg]
  cases t with
  | nil =>
    have hnil : trimLeft g' = [] := by
      simpa [trimLeft] using trimLeft_append hg' []
    rw [List.nil_append, hnil]
    rfl
  | cons c t =>
    rw [trimLeft_eq (by simpa using ht.1), trimRight_append hg', trimRight_eq ht.2]

end Mend.Text

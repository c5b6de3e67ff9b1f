import Mend.Proofs.Fix.Names
import Mend.Proofs.Idiom
import Mend.Proofs.Text.Absence

/-!
# What reminders leave of the code

A bound entanglement ends in a comment, and the comment goes on to the end of the line. So the text
that stood behind the statement on its line is in the comment, unless there was none.

* `uncommented`: what is left of a text without its comments and without given lines.
* `Piece.endLines`: every hit ends its line.
* `sweep_lines_iff`: what is left of the lines of a text with bound entanglements.
* `bindEntanglement_keeps_code_iff`: bound entanglements leave the code of a text alone exactly if
  every bare entanglement ended its line.
-/

namespace Mend

open Text Reader Idiom

namespace Text

/-- What begins a comment that ends with its line. -/
def slashes : Text := "//".toList

/-- What stands on a line in front of a comment. -/
def code : Text → Text
  | [] => []
  | c :: rest => if slashes.isPrefixOf (c :: rest) then [] else c :: code rest

theorem code_isPrefix (line : Text) : code line <+: line := by
  induction line with
  | nil => exact List.nil_prefix
  | cons c rest ih =>
    rw [code]
    split
    · exact List.nil_prefix
    · exact List.cons_prefix_cons.mpr ⟨rfl, ih⟩

theorem code_eq {line : Text} (h : ¬ slashes <:+: line) : code line = line := by
  induction line with
  | nil => rfl
  | cons c rest ih =>
    have hfront : ¬ slashes.isPrefixOf (c :: rest) := fun hpre =>
      h (List.isPrefixOf_iff_prefix.mp hpre).isInfix
    rw [code, if_neg hfront, ih fun hrest => h (hrest.trans (List.suffix_cons c rest).isInfix)]

/-- The lines that are left without some lines, each without its comment. -/
def sweep (dropped ls : List Text) : List Text := (ls.filter fun line => line ∉ dropped).map code

/-- A text without some lines and without its comments. -/
def uncommented (dropped : List Text) (t : Text) : Text := unlines (sweep dropped (lines t))

/-- Every hit is followed by a newline or by nothing. -/
def Piece.endLines : List Piece → Bool
  | [] => true
  | .plain _ :: ps => endLines ps
  | .hit _ :: ps => (ps.flatMap source).head?.all (· == '\n') && endLines ps

section Sweep

variable {dropped ls ls' : List Text} {line : Text}

theorem sweep_cons_of_mem (h : line ∈ dropped) : sweep dropped (line :: ls) = sweep dropped ls := by
  simp [sweep, h]

theorem newline_not_mem_sweep (h : ∀ line ∈ ls, '\n' ∉ line) :
    ∀ line ∈ sweep dropped ls, '\n' ∉ line := by
  intro line hline
  obtain ⟨old, hold, rfl⟩ := List.mem_map.mp hline
  exact fun hc => h old (List.mem_filter.mp hold).1 ((code_isPrefix old).subset hc)

/-- Lines without a comment are left if only lines with a comment are dropped. -/
theorem sweep_append (comments : ∀ r ∈ dropped, slashes <:+: r)
    (h : ∀ line ∈ ls, ¬ slashes <:+: line) :
    sweep dropped (ls ++ ls') = ls ++ sweep dropped ls' := by
  induction ls with
  | nil => rfl
  | cons line ls ih =>
    have hline := h line List.mem_cons_self
    have hkept : line ∉ dropped := fun hmem => hline (comments line hmem)
    rw [List.cons_append, List.cons_append, ← ih fun x hx => h x (List.mem_cons_of_mem line hx)]
    simp [sweep, hkept, code_eq hline]

end Sweep

end Text

namespace Fix

/-! ## The parts of a bound entanglement -/

/-- A bare entanglement that is bound to a name, the statement itself being kept. -/
def binding (name covered : Text) : Text :=
  entanglementIndent covered ++ "const ".toList ++ name ++ " = ".toList
    ++ covered.dropWhile isLineBlank

/-- The lines that remind of a release. -/
def reminders (name covered : Text) : List Text :=
  [entanglementIndent covered ++ "// Release ".toList ++ name
      ++ " once the operation completes:".toList,
    entanglementIndent covered ++ "// ".toList ++ name ++ ".release();".toList]

/-- All lines that remind of a release of what is bound in a text. -/
def addedReminders (t : Text) : List Text :=
  (hits bareEntanglement t).flatMap fun h => reminders (givenName t h) h.covered

/-- A bound entanglement is a binding with reminders below. -/
theorem bound_eq {b : Option Char} {u v : Text} (h : Reads (bareEntanglement b) u v) (name : Text) :
    bound name u = binding name u ++ '\n' :: unlines (reminders name u) := by
  obtain ⟨margin, arguments, rfl, hmargin, -, harguments⟩ := bareEntanglement_parts h
  have hstatement : (margin ++ ("entangle(".toList ++ (arguments ++ ");".toList))).dropWhile
      isLineBlank = "entangle(".toList ++ (arguments ++ ");".toList) :=
    dropWhile_append_stop hmargin (by simp [isLineBlank])
  have hinside : entanglementArguments
      (margin ++ ("entangle(".toList ++ (arguments ++ ");".toList))) = arguments := by
    rw [entanglementArguments, hstatement, List.drop_left' String.length_toList]
    refine takeWhile_append_stop (fun c hc => ?_) (by simp)
    rw [bne_iff_ne]
    rintro rfl
    exact harguments hc
  rw [bound, hinside, binding, hstatement, reminders]
  simp [unlines, List.intercalate_cons_cons]

theorem slashes_isInfix_of_mem_reminders {name covered r : Text} (h : r ∈ reminders name covered) :
    slashes <:+: r := by
  have hrelease : slashes <:+: "// Release ".toList := by decide
  have honce : slashes <:+: "// ".toList := by decide
  simp only [reminders, List.mem_cons, List.not_mem_nil, or_false, List.append_assoc] at h
  obtain rfl | rfl := h
  · exact (hrelease.trans (List.prefix_append _ _).isInfix).trans (List.suffix_append _ _).isInfix
  · exact (honce.trans (List.prefix_append _ _).isInfix).trans (List.suffix_append _ _).isInfix

variable {name covered : Text}

theorem not_slashes_of_not_mem {w : Text} (h : '/' ∉ w) : ¬ slashes <:+: w :=
  fun hw => h (hw.subset (by decide))

theorem isLineBlank_of_mem_indent {c : Char} (h : c ∈ entanglementIndent covered) :
    isLineBlank c := List.mem_takeWhile_imp h

/-- A binding holds no comment that was not there before. -/
theorem not_slashes_binding (words : ∀ c ∈ name, isWord c) (h : ¬ slashes <:+: covered) :
    ¬ slashes <:+: binding name covered := by
  have hconst : Apart slashes "const ".toList := by decide
  have hequals : Apart slashes " = ".toList := by decide
  have hmargin : ¬ slashes <:+: entanglementIndent covered :=
    not_slashes_of_not_mem fun hc => absurd (isLineBlank_of_mem_indent hc) (by decide)
  have hname : ¬ slashes <:+: name :=
    not_slashes_of_not_mem fun hc => absurd (words _ hc) (by decide)
  intro hn
  rw [binding] at hn
  simp only [List.append_assoc] at hn
  obtain hn | hn := hconst.sides hn
  · exact hmargin hn
  obtain hn | hn := hequals.sides hn
  · exact hname hn
  · exact h (hn.trans (List.dropWhile_suffix _).isInfix)

theorem newline_not_mem_reminders (words : ∀ c ∈ name, isWord c) :
    ∀ r ∈ reminders name covered, '\n' ∉ r := by
  have hmargin : '\n' ∉ entanglementIndent covered := fun hc =>
    absurd (isLineBlank_of_mem_indent hc) (by decide)
  have hname : '\n' ∉ name := fun hc => absurd (words _ hc) (by decide)
  intro r hr
  simp only [reminders, List.mem_cons, List.not_mem_nil, or_false] at hr
  obtain rfl | rfl := hr
  · simp [hmargin, hname]
  · simp [hmargin, hname]

/-! ## What is left of a text with bound entanglements -/

section Bound

variable {dropped : List Text} {b : Option Char} {v : Text}

/-- The last reminder of a bound entanglement is on one line with what follows. -/
theorem exists_sweep_bound (read : Reads (bareEntanglement b) covered v)
    (words : ∀ c ∈ name, isWord c) (comments : ∀ r ∈ dropped, slashes <:+: r)
    (free : ¬ slashes <:+: covered) (drops : ∀ r ∈ reminders name covered, r ∈ dropped) :
    ∃ r ∈ dropped, '\n' ∉ r ∧ ∀ rest, sweep dropped (lines (bound name covered ++ rest)) =
      lines (binding name covered) ++ sweep dropped (lines (r ++ rest)) := by
  obtain ⟨first, last, hr⟩ : ∃ first last, reminders name covered = [first, last] := ⟨_, _, rfl⟩
  have hnewline : ∀ r ∈ reminders name covered, '\n' ∉ r := newline_not_mem_reminders words
  rw [hr] at drops hnewline
  have hcode : ∀ line ∈ lines (binding name covered), ¬ slashes <:+: line := fun line hline hn =>
    not_slashes_binding words free (hn.trans (isInfix_of_mem_lines hline))
  refine ⟨last, drops last (by simp), hnewline last (by simp), fun rest => ?_⟩
  have hsplit : bound name covered ++ rest =
      binding name covered ++ '\n' :: (first ++ '\n' :: (last ++ rest)) := by
    rw [bound_eq read, hr]
    simp [unlines, List.intercalate_cons_cons]
  rw [hsplit, lines_append_newline, lines_append_newline,
    lines_eq_singleton (hnewline first (by simp)), sweep_append comments hcode,
    List.singleton_append, sweep_cons_of_mem (drops first (by simp))]

variable (read : Reads (bareEntanglement b) covered v) (words : ∀ c ∈ name, isWord c)
  (comments : ∀ r ∈ dropped, slashes <:+: r) (free : ¬ slashes <:+: covered)
  (drops : ∀ r ∈ reminders name covered, r ∈ dropped)

include read words comments free drops

/-- At the end of a text, the reminders are dropped. -/
theorem sweep_bound :
    sweep dropped (lines (bound name covered)) = lines (binding name covered) := by
  obtain ⟨r, hr, hnewline, hsweep⟩ := exists_sweep_bound read words comments free drops
  have hend := hsweep []
  rw [List.append_nil, List.append_nil, lines_eq_singleton hnewline, sweep_cons_of_mem hr] at hend
  exact hend.trans (List.append_nil _)

/-- At the end of a line, the reminders are dropped. -/
theorem sweep_bound_newline_iff {u w : Text} :
    sweep dropped (lines (bound name covered ++ '\n' :: u)) =
      lines (binding name covered ++ '\n' :: w) ↔ sweep dropped (lines u) = lines w := by
  obtain ⟨r, hr, hnewline, hsweep⟩ := exists_sweep_bound read words comments free drops
  rw [hsweep, lines_append_newline, lines_append_newline, lines_eq_singleton hnewline,
    List.singleton_append, sweep_cons_of_mem hr, List.append_cancel_left_eq]

/-- Before the end of its line, a bound entanglement takes something with it: the line of the
binding goes on, and not what is left of it. -/
theorem sweep_bound_ne {c : Char} (hc : c ≠ '\n') (u w : Text) :
    sweep dropped (lines (bound name covered ++ c :: u)) ≠
      lines (binding name covered ++ c :: w) := by
  obtain ⟨r, -, -, hsweep⟩ := exists_sweep_bound read words comments free drops
  obtain ⟨init, last, head, tail, hbinding, hrest, hboth⟩ :=
    exists_lines_append (binding name covered) (c :: w)
  intro e
  rw [hsweep, hbinding, hboth, List.append_assoc, List.append_cancel_left_eq,
    List.singleton_append, List.cons.injEq, List.self_eq_append_right] at e
  obtain ⟨line, ls, hls⟩ := List.exists_cons_of_ne_nil (lines_ne_nil w)
  rw [lines_cons, if_neg hc, hls, e.1, List.modifyHead_cons, List.cons.injEq] at hrest
  exact List.cons_ne_nil _ _ hrest.1

end Bound

section Scan

variable {names : Hit → Text} {dropped : List Text} {b : Option Char} {l n : Nat} {t : Text}
  {ps : List Piece}

theorem bareEntanglement_ends {u v : Text} (h : Reads (bareEntanglement b) u v) :
    u.getLast? = some ';' := by
  obtain ⟨margin, arguments, rfl, -⟩ := bareEntanglement_parts h
  have hend : margin ++ ("entangle(".toList ++ (arguments ++ ");".toList)) =
      (margin ++ ("entangle(".toList ++ (arguments ++ [')']))) ++ [';'] := by simp
  rw [hend, List.getLast?_concat]

/-- A line without a comment is left. -/
theorem sweep_newline_iff (comments : ∀ r ∈ dropped, slashes <:+: r) {x u w : Text}
    (hx : '\n' ∉ x) (free : ¬ slashes <:+: x) :
    sweep dropped (lines (x ++ '\n' :: u)) = lines (x ++ '\n' :: w) ↔
      sweep dropped (lines u) = lines w := by
  rw [lines_append_newline, lines_append_newline, lines_eq_singleton hx,
    sweep_append comments (by simpa using free), List.append_cancel_left_eq]

/-- **What is left of the lines of a text with bound entanglements are the lines with bindings,
exactly if every bare entanglement ended its line.** The line that the text goes on begins with
`x`. -/
theorem sweep_lines_iff (words : ∀ h, ∀ c ∈ names h, isWord c)
    (comments : ∀ r ∈ dropped, slashes <:+: r) (s : Scanned bareEntanglement b l n t ps) {x : Text}
    (hx : '\n' ∉ x) (start : b.all (· == '\n') → x = []) (free : ¬ slashes <:+: x ++ t)
    (drops : ∀ h ∈ Piece.hits ps, ∀ r ∈ reminders (names h) h.covered, r ∈ dropped) :
    sweep dropped (lines (x ++ Piece.replace (fun h => bound (names h) h.covered) ps)) =
        lines (x ++ Piece.replace (fun h => binding (names h) h.covered) ps) ↔
      Piece.endLines ps := by
  induction s generalizing x with
  | nil =>
    have hfreex : ∀ line ∈ [x], ¬ slashes <:+: line := by simpa using free
    have hkept : sweep dropped ([x] ++ []) = [x] ++ [] := sweep_append comments hfreex
    simpa [Piece.endLines, lines_eq_singleton hx] using hkept
  | @plain b l n c t ps unread rest ih =>
    rw [Piece.replace_plain, Piece.replace_plain, Piece.endLines]
    by_cases hc : c = '\n'
    · subst hc
      have hfreet : ¬ slashes <:+: [] ++ t := fun hn =>
        free (hn.trans ((List.suffix_cons _ t).trans (List.suffix_append x _)).isInfix)
      have hfreex : ¬ slashes <:+: x := fun hn => free (hn.trans (List.prefix_append x _).isInfix)
      rw [sweep_newline_iff comments hx hfreex]
      exact ih (x := []) List.not_mem_nil (fun _ => rfl) hfreet drops
    · have hx' : '\n' ∉ x ++ [c] := by simp [hx, Ne.symm hc]
      have ih := ih hx' (by simp [hc]) (by simpa using free) drops
      rwa [← List.append_cons, ← List.append_cons] at ih
  | @hit b l n u v ps covers read rest ih =>
    have hlast := bareEntanglement_ends read
    obtain rfl : x = [] := start (reads_atLine.mp read).1
    have hfreeu : ¬ slashes <:+: u := fun hn => free (hn.trans (List.prefix_append u v).isInfix)
    have hfreev : ¬ slashes <:+: [] ++ v := fun hn =>
      free (hn.trans (List.suffix_append u v).isInfix)
    have hdrops := drops ⟨n, l, u⟩ (by simp)
    have hbehind := ih (x := []) List.not_mem_nil (by simp [hlast]) hfreev fun h hh =>
      drops h (List.mem_cons_of_mem _ hh)
    rw [Piece.replace_hit, Piece.replace_hit, List.nil_append, List.nil_append, Piece.endLines]
    -- what the hit is followed by decides where the last reminder ends
    rw [hlast] at rest
    cases rest with
    | nil =>
      rw [Piece.replace_nil, Piece.replace_nil, List.append_nil, List.append_nil]
      exact iff_of_true (sweep_bound read (words _) comments hfreeu hdrops) rfl
    | hit _ read' _ => exact absurd (reads_atLine.mp read').1 (by decide)
    | @plain _ _ _ c v ps _ rest =>
      rw [Piece.replace_plain, Piece.replace_plain] at hbehind ⊢
      by_cases hc : c = '\n'
      · subst hc
        rw [sweep_newline_iff comments List.not_mem_nil (by decide)] at hbehind
        rw [sweep_bound_newline_iff read (words _) comments hfreeu hdrops, hbehind]
        simp [Piece.source]
      · exact iff_of_false (sweep_bound_ne read (words _) comments hfreeu hdrops hc _ _)
          (by simp [Piece.source, hc])

end Scan

theorem Piece.eq_nil_of_replace {f : Hit → Text} {ps : List Piece} (nonempty : ∀ h, f h ≠ [])
    (e : Piece.replace f ps = []) : ps = [] := by
  cases ps with
  | nil => rfl
  | cons q ps =>
    cases q with
    | plain c => cases e
    | hit h => exact absurd (List.append_eq_nil_iff.mp e).1 (nonempty h)

/-- **Bound entanglements leave the code of a text alone exactly if every bare entanglement ended
its line.** Without the comments and the lines that only remind, the text is the one that was
received, with every bare entanglement bound to its name. -/
theorem bindEntanglement_keeps_code_iff {t : Text} {i : Issue} {f : Fix} (free : ¬ slashes <:+: t)
    (h : bindEntanglement t i = .ok f) :
    uncommented (addedReminders t) f.fixed =
        replaceHits bareEntanglement (fun x => binding (givenName t x) x.covered) t ↔
      Piece.endLines (scan bareEntanglement t) := by
  have words : ∀ x, ∀ c ∈ givenName t x, isWord c := fun x c hc => isWord_of_mem_entanglementName hc
  have comments : ∀ r ∈ addedReminders t, slashes <:+: r := by
    intro r hr
    obtain ⟨x, -, hr⟩ := List.mem_flatMap.mp hr
    exact slashes_isInfix_of_mem_reminders hr
  have drops : ∀ x ∈ Piece.hits (scan bareEntanglement t),
      ∀ r ∈ reminders (givenName t x) x.covered, r ∈ addedReminders t :=
    fun x hx r hr => List.mem_flatMap.mpr ⟨x, hx, hr⟩
  have hlines := sweep_lines_iff words comments (scanned_scan bareEntanglement t) (x := [])
    List.not_mem_nil (fun _ => rfl) free drops
  rw [List.nil_append, List.nil_append] at hlines
  rw [fixed_bindEntanglement h, ← hlines, uncommented, replaceHits, replaceHits]
  constructor
  · intro e
    by_cases hswept : sweep (addedReminders t) (lines (Piece.replace
        (fun x => bound (givenName t x) x.covered) (scan bareEntanglement t))) = []
    · -- nothing is left of no text only, and of that, its one line is
      rw [hswept] at e
      have hnone := Piece.eq_nil_of_replace (fun x => by simp [binding]) e.symm
      have hempty : ([] : Text) ∉ addedReminders t := fun hr => absurd (comments _ hr) (by decide)
      rw [hnone] at hswept
      exact absurd hswept (by simp [lines, sweep, hempty])
    · rw [← e, lines_unlines hswept (newline_not_mem_sweep fun _ => newline_not_mem_of_mem_lines)]
  · intro e
    rw [e, unlines_lines]

/-- Two entanglements that end their lines, one of them over two lines. -/
theorem bindEntanglement_keeps_code_sample :
    let t := "entangle(a,\n  b);\n\tentangle(c);".toList
    ¬ slashes <:+: t ∧ Piece.endLines (scan bareEntanglement t) ∧
      ∃ f, bindEntanglement t { rule := "r", description := "d" } = .ok f ∧
        uncommented (addedReminders t) f.fixed =
          replaceHits bareEntanglement (fun x => binding (givenName t x) x.covered) t := by
  intro t
  have free : ¬ slashes <:+: t := by decide +kernel
  have hends : Piece.endLines (scan bareEntanglement t) := by decide +kernel
  obtain ⟨f, hf⟩ := exists_bindEntanglement (t := t) (i := { rule := "r", description := "d" })
    (by decide +kernel)
  exact ⟨free, hends, f, hf, (bindEntanglement_keeps_code_iff free hf).mpr hends⟩

/-- **A call behind an entanglement ends up in the comment**, and nothing of it is left. -/
theorem bindEntanglement_comments_code :
    let t := "entangle(a); b();".toList
    ¬ slashes <:+: t ∧ ∃ f, bindEntanglement t { rule := "r", description := "d" } = .ok f ∧
      uncommented (addedReminders t) f.fixed = "const entanglement_1 = entangle(a);\n".toList ∧
      uncommented (addedReminders t) f.fixed ≠
        replaceHits bareEntanglement (fun x => binding (givenName t x) x.covered) t := by
  intro t
  obtain ⟨f, hf⟩ := exists_bindEntanglement (t := t) (i := { rule := "r", description := "d" })
    (by decide +kernel)
  have hleft : uncommented (addedReminders t) f.fixed =
      "const entanglement_1 = entangle(a);\n".toList := by
    rw [fixed_bindEntanglement hf]
    decide +kernel
  refine ⟨by decide +kernel, f, hf, hleft, ?_⟩
  rw [hleft]
  decide +kernel

end Fix

end Mend

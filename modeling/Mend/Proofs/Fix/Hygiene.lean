import Mathlib.Tactic.Push
import Mend.Fix.Hygiene
import Mend.Proofs.Fix.Basic
import Mend.Proofs.Fix.Place
import Mend.Proofs.Idiom

/-!
# The contract of fixes of logging, secrets and imports

A call of the logger clashes with one of the console, and a look-up in the environment with a quoted
literal. An import that loses specifiers is another line, since the specifiers can be read back from
it, and an import that is dropped leaves fewer lines.

* `replaceConsoleLog_contract`, `externalizeSecrets_contract`, `pruneImports_contract`.
* `Pruning.Sound`: what holds after every line of a pruning.
-/

namespace Mend

open Text

namespace Fix

/-! ## Logging -/

theorem newline_not_mem_logged {line : Text} (h : '\n' ∉ line) : '\n' ∉ logged line := by
  intro hc
  obtain hc | ⟨x, -, hc⟩ := mem_of_mem_replaceHits hc
  · exact h hc
  · exact absurd hc (by decide)

theorem logged_ne {line : Text} (found : hitCount Idiom.consoleLog line ≠ 0) :
    logged line ≠ line := by
  refine replaceHits_ne (List.length_pos_iff.mp (Nat.pos_of_ne_zero found)) fun x hx => ?_
  obtain ⟨-, b, v, hread⟩ := reads_of_mem_hits hx
  rw [Idiom.reads_consoleLog.mp hread]
  exact Clash.of_ne (by decide) _ _

/-- No calls are counted exactly if no line has any. -/
theorem foldl_add_eq_zero_iff {rows : List (Text × Nat)} {n : Nat} :
    rows.foldl (fun n row => n + row.2) n = 0 ↔ n = 0 ∧ ∀ row ∈ rows, row.2 = 0 := by
  induction rows generalizing n with
  | nil => simp
  | cons row rows ih =>
    rw [List.foldl_cons, ih, List.forall_mem_cons, Nat.add_eq_zero_iff, and_assoc]

/-- The calls that are counted stand on some line. -/
theorem exists_of_foldl_add_ne_zero {rows : List (Text × Nat)}
    (h : rows.foldl (fun n row => n + row.2) 0 ≠ 0) : ∃ row ∈ rows, row.2 ≠ 0 := by
  by_contra hnone
  push Not at hnone
  exact h (foldl_add_eq_zero_iff.mpr ⟨rfl, hnone⟩)

theorem replaceConsoleLog_contract (t : Text) (i : Issue) : (replaceConsoleLog t i).Contract t := by
  rw [replaceConsoleLog]
  dsimp only
  split
  · exact .nothing t _
  · next found =>
    obtain ⟨row, hrow, hne⟩ := exists_of_foldl_add_ne_zero found
    obtain ⟨line, hline, rfl⟩ := List.mem_map.mp hrow
    refine .of_success rfl rfl ?_ ?_
    · dsimp only
      split
      · rw [List.map_map]
        exact unlines_map_ne
          (fun l hl => newline_not_mem_logged (newline_not_mem_of_mem_lines hl))
          ⟨line, hline, logged_ne hne⟩
      · next unknown =>
        -- the import is what was not known
        intro e
        refine unknown (Bool.or_eq_true_iff.mpr (.inl (contains_iff.mpr ?_)))
        have himport : "import".toList <:+: loggerImport := contains_iff.mp (by decide)
        rw [← e, List.append_assoc]
        exact himport.trans (List.prefix_append _ _).isInfix
    · obtain ⟨k, hk⟩ := List.mem_iff_getElem?.mp hrow
      have hmem := List.mk_mem_zipIdx_iff_getElem?.mpr hk
      dsimp only
      split
      · exact List.ne_nil_of_mem (List.mem_filterMap.mpr ⟨_, hmem, if_neg hne⟩)
      · refine List.append_ne_nil_of_left_ne_nil ?_ _
        exact List.ne_nil_of_mem (List.mem_filterMap.mpr ⟨_, hmem, if_neg hne⟩)

/-! ## Secrets -/

end Fix

namespace Idiom.Secret

variable (s : Secret)

/-- What a look-up puts behind the sign. -/
def lookup : Text := ' ' :: ("process.env.".toList ++ (Fix.environmentName s.text ++
  " || 'REPLACE_WITH_ENV_VAR'".toList))

/-- What a look-up keeps in front of the sign. -/
def kept : Text := if s.sign = ':' then s.name else s.name ++ s.gap

theorem externalized_text : Fix.externalized s.text = s.kept ++ s.sign :: s.lookup := by
  rw [Fix.externalized, secretName_text, secretIsProperty_text, secretGap_text, kept, lookup]
  simp only [List.append_assoc]
  obtain h | h := s.sign_eq
  · rw [h, if_pos (by decide), if_pos rfl]
    simp only [String.reduceToList, List.cons_append, List.nil_append]
  · rw [h, if_neg (by decide), if_neg (by decide), List.append_assoc, List.append_assoc]
    simp only [String.reduceToList, List.cons_append, List.nil_append]

theorem kept_isPrefix_text : s.kept <+: s.text := by
  rw [kept]
  split
  · exact List.prefix_append _ _
  · exact ⟨s.assigned, by simp [text]⟩

/-- The name of a variable in the environment has no signs. -/
theorem not_mem_environmentName {c : Char} (hc : 0 < c.toNat ∧ c.toNat < 65) (hword : ¬ isWord c) :
    c ∉ Fix.environmentName s.text := by
  refine not_mem_upper hc fun hmem => hword ?_
  rw [secretName_text] at hmem
  exact s.word_of_mem_name c hmem

/-- What is assigned is no look-up: behind white space stands a quote. -/
theorem clash_lookup (s' : Secret) :
    Clash (s.space ++ s.opening :: (s.secret ++ [s.closing])) s'.lookup := by
  have hopening : s.opening ≠ 'p' := by
    obtain h | h | h := isQuote_cases s.opening_quotes <;> rw [h] <;> decide
  exact Clash.of_blanks s.blank_of_mem_space (not_isBlank_of_isQuote s.opening_quotes) (by decide)
    (.of_ne hopening _ _)

end Idiom.Secret

namespace Fix

theorem clash_externalized {b : Option Char} {u v : Text}
    (h : Reader.Reads (Idiom.secretAssignment b) u v) : Clash u (externalized u) := by
  obtain ⟨s, rfl⟩ := Idiom.secretAssignment_parts h
  have hassigned : Clash s.assigned (s.sign :: s.lookup) := Clash.cons s.sign (s.clash_lookup s)
  rw [s.externalized_text, Idiom.Secret.text, Idiom.Secret.kept]
  obtain hsign | hsign := s.sign_eq
  · rw [if_pos hsign]
    refine Clash.append_left s.name ?_
    cases hgap : s.gap with
    | nil => exact hassigned
    | cons c gap =>
      have hc : c ≠ s.sign := by
        rintro rfl
        have hblank := s.blank_of_mem_gap s.sign (by simp [hgap])
        rw [hsign] at hblank
        exact absurd hblank (by decide)
      exact Clash.of_ne hc _ _
  · rw [if_neg (by rw [hsign]; decide), List.append_assoc]
    exact Clash.append_left s.name (.append_left s.gap hassigned)

theorem externalizeSecrets_contract (t : Text) (i : Issue) :
    (externalizeSecrets t i).Contract t := by
  rw [externalizeSecrets]
  split
  · exact .nothing t _
  · next found =>
    have found := mt List.isEmpty_iff.mpr found
    refine .of_success rfl rfl ?_ (by simpa using found)
    refine replaceHits_ne found fun h hh => ?_
    obtain ⟨-, b, v, hread⟩ := reads_of_mem_hits hh
    exact clash_externalized hread

/-! ## Imports -/

theorem newline_not_mem_importOf {line : Text} {l : Idiom.ImportLine} {ss : List Text}
    (h : '\n' ∉ line) (hl : Idiom.importLine? line = some l)
    (hss : ∀ s ∈ ss, s ∈ Idiom.importSpecifiers l.inside) : '\n' ∉ importOf l ss := by
  rw [Idiom.importLine?_eq_some hl] at h
  simp only [List.mem_append, not_or] at h
  obtain ⟨hhead, hinside, htail⟩ := h
  intro hc
  simp only [importOf, List.mem_append] at hc
  obtain (((hc | hc) | hc) | hc) | hc := hc
  · exact hhead hc
  · exact absurd hc (by decide)
  · obtain hc | ⟨s, hs, hc⟩ := mem_of_mem_intercalate hc
    · exact absurd hc (by decide)
    · exact hinside ((Idiom.mem_importSpecifiers (hss s hs)).2.2.2 _ hc)
  · exact absurd hc (by decide)
  · exact htail hc

/-- An import that is written with fewer specifiers is another line. -/
theorem importOf_ne {line : Text} {l : Idiom.ImportLine} {ss : List Text}
    (hl : Idiom.importLine? line = some l) (nonempty : ss ≠ [])
    (hss : ∀ s ∈ ss, s ∈ Idiom.importSpecifiers l.inside)
    (ne : ss ≠ Idiom.importSpecifiers l.inside) : importOf l ss ≠ line := by
  intro e
  rw [Idiom.importLine?_eq_some hl, importOf] at e
  simp only [List.append_assoc] at e
  have hinside : ' ' :: (List.intercalate ", ".toList ss ++ [' ']) = l.inside := by
    have h := List.append_cancel_left e
    rw [← List.append_assoc, ← List.append_assoc] at h
    simpa using List.append_cancel_right h
  have hspecifiers := Idiom.importSpecifiers_intercalate
    (fun s hs => (Idiom.mem_importSpecifiers (hss s hs)).imp_right fun h => ⟨h.1, h.2.1⟩) nonempty
  rw [hinside] at hspecifiers
  exact ne hspecifiers.symm

/-- What holds of a pruning when the lines `done` have been gone through. -/
structure Pruning.Sound (done : List Text) (s : Pruning) : Prop where
  length_le : s.kept.length ≤ done.length
  oneLine : ∀ line ∈ s.kept, '\n' ∉ line
  removed_iff : s.removed = 0 ↔ s.changes = []
  /-- Once a change was recorded, the lines that are kept are others. -/
  kept_ne : s.changes ≠ [] → s.kept.reverse ≠ done

namespace Pruning

variable {done : List Text} {s : Pruning} {line : Text}

theorem Sound.keep (h : s.Sound done) (hline : '\n' ∉ line) :
    Sound (done ++ [line]) { s with kept := line :: s.kept } where
  length_le := by simpa using h.length_le
  oneLine := by simpa using ⟨hline, h.oneLine⟩
  removed_iff := h.removed_iff
  kept_ne changed e := by
    rw [List.reverse_cons] at e
    exact h.kept_ne changed (List.append_cancel_right e)

theorem Sound.step (h : s.Sound done) (hline : '\n' ∉ line) (number : Nat) (after : List Text) :
    Sound (done ++ [line]) (s.step number line after) := by
  rw [Pruning.step]
  split
  · exact h.keep hline
  · next l hl =>
    dsimp only
    set specifiers := Idiom.importSpecifiers l.inside
    set used := usedSpecifiers specifiers (unlines (s.kept.reverseAux after))
    have hsub : ∀ x ∈ used, x ∈ specifiers := fun x hx => (List.mem_filter.mp hx).1
    split
    · exact h.keep hline
    · next unused =>
      split
      · refine ⟨by simp [Nat.le_succ_of_le h.length_le], h.oneLine, by simp [unused], fun _ e => ?_⟩
        have hlength := congrArg List.length e
        have hle := h.length_le
        simp only [List.length_reverse, List.length_append, List.length_singleton] at hlength
        omega
      · next nonempty =>
        have hne : used ≠ specifiers := by
          intro e
          rw [e] at unused
          simp at unused
        have hnew := newline_not_mem_importOf hline hl hsub
        have hother := importOf_ne hl (mt List.isEmpty_iff.mpr nonempty) hsub hne
        refine ⟨by simpa using h.length_le, by simpa using ⟨hnew, h.oneLine⟩, by simp [unused],
          fun _ e => ?_⟩
        rw [List.reverse_cons] at e
        exact hother (List.singleton_inj.mp (List.append_inj' e rfl).2)

end Pruning

theorem pruneFrom_sound :
    ∀ {after done : List Text} {s : Pruning} (number : Nat), s.Sound done →
      (∀ line ∈ after, '\n' ∉ line) → (pruneFrom s number after).Sound (done ++ after)
  | [], done, s, _, h, _ => by simpa [pruneFrom] using h
  | line :: after, done, s, number, h, hlines => by
    have hstep := h.step (hlines line (by simp)) number after
    have hrest := pruneFrom_sound (number + 1) hstep
      fun l hl => hlines l (List.mem_cons_of_mem _ hl)
    simpa [pruneFrom] using hrest

theorem pruneImports_contract (t : Text) (i : Issue) : (pruneImports t i).Contract t := by
  have hempty : Pruning.Sound [] {} := ⟨le_refl _, by simp, by simp, by simp⟩
  have h := pruneFrom_sound 1 hempty fun line hline => newline_not_mem_of_mem_lines (t := t) hline
  rw [List.nil_append] at h
  rw [pruneImports]
  split
  · exact .nothing t _
  · next found =>
    have hchanges := mt h.removed_iff.mpr found
    refine .of_success rfl rfl ?_ (by simpa using hchanges)
    by_cases hkept : (pruneFrom {} 1 (lines t)).kept = []
    · -- an import was removed, so the text is not empty
      rintro e
      rw [hkept] at e
      obtain rfl : [] = t := e
      exact found (by decide)
    · refine unlines_ne (by simpa using hkept) ?_ (h.kept_ne hchanges)
      simpa using h.oneLine

end Fix

end Mend

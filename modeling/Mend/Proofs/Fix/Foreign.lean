import Mend.Fix.Transform
import Mend.Proofs.Fix.Hygiene
import Mend.Proofs.Fix.Quantum
import Mend.Proofs.Text.Absence

/-!
# Words that no transform writes

Whatever a transform takes out of a text, moves in it or puts into it, some words do not come up
that were not there: what is put in keeps occurrences of them apart on both sides, and what is kept
was in the text before. A call that writes to the console is such a word. A carriage return is
another: texts are read without any, so a fixed text is read back as it is from the file that it is
written to.

* `TransformKind.writes`: what a transform writes of its own, apart from names.
* `Foreign`: what makes a word one that no transform writes.
* `keeps_externalized`, `keeps_bound`: what stands for a secret or an entanglement brings in no
  foreign word.
* `infix_of_transform`: **no transform brings in a foreign word**.
* `foreign_consoleCall`, `foreign_return`: the two words above are foreign.
* `not_infix_replaceConsoleLog`: after the calls were replaced, there are none.
-/

namespace Mend

open Text Idiom

/-! ## What transforms write -/

/-- The texts that a transform puts in around the parts of a text that it keeps. -/
def TransformKind.writes : TransformKind → List Text
  | addErrorHandling =>
    ["try \x7b".toList, "  ".toList, "\x7d catch (error) \x7b".toList,
      "  console.error('Async operation failed:', error)".toList, "  throw error".toList,
      "\x7d".toList]
  | removeRedundantAsync => ["function".toList]
  | protectMeasurement =>
    ["await ".toList ++ Fix.protectedCall ++ ['('], Fix.protectionImport]
  | bindEntanglement =>
    ["const ".toList, " = entangle(".toList, ");\n".toList, "// Release ".toList,
      " once the operation completes:\n".toList, "// ".toList, ".release();".toList]
  | replaceConsoleLog => ["logger.debug(".toList, Fix.loggerImport ++ "\n\n".toList]
  | externalizeSecrets =>
    [": ".toList, "= ".toList, "process.env.".toList, " || 'REPLACE_WITH_ENV_VAR'".toList]
  | collapseSuperposition => [Fix.singleCollapse, Fix.notedCollapse]
  | pruneImports => [[' '], ", ".toList]
  | annotateComplexity =>
    ["// REFACTOR: high cyclomatic complexity detected here".toList,
      "// Consider splitting this function into smaller ones".toList]
  | deferMeasurement => ["; ".toList, [';']]

/-- A word that no transform writes. -/
structure Foreign (n : Text) : Prop where
  /-- What is put in has no part of an occurrence. -/
  apart : ∀ k : TransformKind, ∀ w ∈ k.writes, Apart n w
  /-- An occurrence lies on one line. -/
  newline : '\n' ∉ n
  /-- An occurrence that begins in the white space in front of a line ends there. -/
  blank : n.head?.any isBlank → n.length = 1
  /-- The names that are put in have no occurrence, in upper case or not. -/
  sign : ∃ c ∈ n, (0 < c.toNat ∧ c.toNat < 65) ∧ ¬ isWord c

namespace Foreign

variable {n t : Text}

theorem ne_nil (h : Foreign n) : n ≠ [] := by
  obtain ⟨c, hc, -⟩ := h.sign
  exact List.ne_nil_of_mem hc

theorem not_infix_entanglementName (h : Foreign n) (k : Nat) :
    ¬ n <:+: Fix.entanglementName k := by
  obtain ⟨c, hc, -, hword⟩ := h.sign
  exact fun hn => hword (Fix.isWord_of_mem_entanglementName (hn.subset hc))

theorem not_infix_environmentName (h : Foreign n) (s : Secret) :
    ¬ n <:+: Fix.environmentName s.text := by
  obtain ⟨c, hc, hcode, hword⟩ := h.sign
  exact fun hn => s.not_mem_environmentName hcode hword (hn.subset hc)

/-- No occurrence comes up in lines of which each is one of the text or brings in none. -/
theorem infix_of_mem_splice (h : Foreign n) {block : List Text} {j k : Nat}
    (hblock : ∀ line ∈ block, n <:+: line → n <:+: t)
    (hn : n <:+: unlines ((lines t).take j ++ block ++ (lines t).drop k)) : n <:+: t := by
  refine infix_of_unlines h.ne_nil h.newline (fun line hline hmem => ?_) hn
  obtain hline | hline := mem_of_mem_splice hline
  · exact hmem.trans (isInfix_of_mem_lines hline)
  · exact hblock line hline hmem

/-- No occurrence comes up on a line whose first hit is replaced. -/
theorem infix_of_replaceFirst_line (h : Foreign n) {p : Pattern} {new : Text} (hnew : Apart n new)
    {k : Nat}
    (hn : n <:+: unlines (replaceLine (lines t) k [replaceFirst p new ((lines t).getD k [])])) :
    n <:+: t := by
  refine h.infix_of_mem_splice (fun line hline hmem => ?_) hn
  obtain rfl := List.mem_singleton.mp hline
  exact (infix_of_replaceFirst (fun m _ => hnew.keeps m.covered) hmem).trans
    (isInfix_getD_lines t k)

end Foreign

theorem Text.Apart.infix_of_indent_append {n w line : Text} (h : Apart n w)
    (hn : n <:+: indent line ++ w) : n <:+: line :=
  (h.infix_left hn).trans (List.takeWhile_prefix _).isInfix

namespace Fix

variable {n t : Text} {i : Issue}

/-! ## Fixes at one line -/

theorem infix_of_mem_handled (h : Foreign n) {line x : Text} (hx : x ∈ handled line)
    (hn : n <:+: x) : n <:+: line := by
  have hwrites := h.apart .addErrorHandling
  simp only [TransformKind.writes, List.forall_mem_cons, -String.reduceToList] at hwrites
  obtain ⟨htry, hspaces, hcatch, hreport, hthrow, hend, -⟩ := hwrites
  simp only [handled, List.mem_cons, List.not_mem_nil, or_false, List.append_assoc] at hx
  obtain rfl | rfl | rfl | rfl | rfl | rfl := hx
  · exact htry.infix_of_indent_append hn
  · obtain hn | hn := hspaces.sides hn
    · exact hn.trans (List.takeWhile_prefix _).isInfix
    · exact hn.trans (trim_isInfix line)
  · exact hcatch.infix_of_indent_append hn
  · exact hreport.infix_of_indent_append hn
  · exact hthrow.infix_of_indent_append hn
  · exact hend.infix_of_indent_append hn

theorem infix_of_addErrorHandling (h : Foreign n) (hn : n <:+: (addErrorHandling t i).fixed) :
    n <:+: t := by
  rw [addErrorHandling] at hn
  dsimp only at hn
  split at hn
  · exact hn
  · next k _ =>
    refine h.infix_of_mem_splice (fun line hline hmem => ?_) hn
    exact (infix_of_mem_handled h hline hmem).trans (isInfix_getD_lines t k)

theorem infix_of_removeRedundantAsync (h : Foreign n)
    (hn : n <:+: (removeRedundantAsync t i).fixed) : n <:+: t := by
  rw [removeRedundantAsync] at hn
  dsimp only at hn
  split at hn
  · exact hn
  · exact h.infix_of_replaceFirst_line
      (h.apart .removeRedundantAsync _ (List.mem_singleton_self _)) hn

theorem infix_of_annotateComplexity (h : Foreign n) (hn : n <:+: (annotateComplexity t i).fixed) :
    n <:+: t := by
  have hwrites := h.apart .annotateComplexity
  simp only [TransformKind.writes, List.forall_mem_cons, -String.reduceToList] at hwrites
  obtain ⟨hfirst, hsecond, -⟩ := hwrites
  rw [annotateComplexity] at hn
  dsimp only at hn
  split at hn
  · exact hn
  · next k _ =>
    refine h.infix_of_mem_splice (fun line hline hmem => ?_) hn
    simp only [advice, List.mem_cons, List.not_mem_nil, or_false] at hline
    obtain rfl | rfl := hline
    · exact (hfirst.infix_of_indent_append hmem).trans (isInfix_getD_lines t k)
    · exact (hsecond.infix_of_indent_append hmem).trans (isInfix_getD_lines t k)

theorem infix_of_protectMeasurement (h : Foreign n) (hn : n <:+: (protectMeasurement t i).fixed) :
    n <:+: t := by
  have hwrites := h.apart .protectMeasurement
  simp only [TransformKind.writes, List.forall_mem_cons, -String.reduceToList] at hwrites
  obtain ⟨hcall, himport, -⟩ := hwrites
  rw [protectMeasurement] at hn
  dsimp only at hn
  split at hn
  · exact hn
  · dsimp only at hn
    split at hn
    · exact h.infix_of_replaceFirst_line hcall hn
    · obtain ⟨line, hline, hmem⟩ := (infix_unlines_iff h.newline (List.cons_ne_nil _ _)).mp hn
      obtain rfl | hline := List.mem_cons.mp hline
      · exact absurd (List.infix_nil.mp (himport.infix_left (a := []) hmem)) h.ne_nil
      · refine h.infix_of_replaceFirst_line hcall ((infix_unlines_iff h.newline ?_).mpr
          ⟨line, hline, hmem⟩)
        exact List.ne_nil_of_mem hline

/-! ## Fixes of quantum operations -/

/-- A bound entanglement is made of the parts of the bare one and of what keeps foreign words
apart. -/
theorem keeps_bound (h : Foreign n) (covered : Text) (k : Nat) :
    Keeps n covered (bound (entanglementName k) covered) := by
  have hwrites := h.apart .bindEntanglement
  simp only [TransformKind.writes, List.forall_mem_cons, -String.reduceToList] at hwrites
  obtain ⟨hconst, hcall, hend, hrelease, honce, hcomment, hmethod, -⟩ := hwrites
  have hmargin : entanglementIndent covered <+: covered := List.takeWhile_prefix _
  have harguments : entanglementArguments covered <:+: covered :=
    (List.takeWhile_prefix _).isInfix.trans
      ((List.drop_suffix _ _).isInfix.trans (List.dropWhile_suffix _).isInfix)
  have hname := h.not_infix_entanglementName k
  intro a b hn
  have hcovered : ∀ {u}, u <:+: covered → n <:+: u → n <:+: a ++ covered ∨ n <:+: covered ++ b :=
    fun hu hn => .inr ((hn.trans hu).trans (List.prefix_append _ _).isInfix)
  rw [bound] at hn
  simp only [List.append_assoc] at hn
  rw [← List.append_assoc a] at hn
  obtain hn | hn := hconst.sides hn
  · exact .inl (hn.trans ((List.prefix_append_right_inj a).mpr hmargin).isInfix)
  obtain hn | hn := hcall.sides hn
  · exact absurd hn hname
  obtain hn | hn := hend.sides hn
  · exact hcovered harguments hn
  obtain hn | hn := hrelease.sides hn
  · exact hcovered hmargin.isInfix hn
  obtain hn | hn := honce.sides hn
  · exact absurd hn hname
  obtain hn | hn := hcomment.sides hn
  · exact hcovered hmargin.isInfix hn
  obtain hn | hn := hmethod.sides hn
  · exact absurd hn hname
  · exact .inr (hn.trans (List.suffix_append _ _).isInfix)

theorem infix_of_bindEntanglement (h : Foreign n) {f : Fix} (hf : bindEntanglement t i = .ok f)
    (hn : n <:+: f.fixed) : n <:+: t := by
  rw [fixed_bindEntanglement hf] at hn
  exact infix_of_replaceHits (fun x _ => keeps_bound h x.covered _) hn

theorem infix_of_collapseSuperposition (h : Foreign n)
    (hn : n <:+: (collapseSuperposition t i).fixed) : n <:+: t := by
  have hwrites := h.apart .collapseSuperposition
  simp only [TransformKind.writes, List.forall_mem_cons, -String.reduceToList] at hwrites
  obtain ⟨hsingle, hnoted, -⟩ := hwrites
  rw [collapseSuperposition] at hn
  split at hn
  · exact hn
  · exact infix_of_replaceHits (fun x _ => hsingle.keeps x.covered)
      (infix_of_replaceHits (fun x _ => hnoted.keeps x.covered) hn)

theorem isInfix_of_mem_statements {line s : Text} (h : s ∈ statements line) : s <:+: line := by
  rw [statements, List.mem_filter, List.mem_map] at h
  obtain ⟨⟨w, hw, rfl⟩, -⟩ := h
  exact (trim_isInfix w).trans (isInfix_of_mem_splitOn hw)

theorem infix_of_deferred (h : Foreign n) {line new : Text} (hd : deferred? line = some new)
    (hn : n <:+: new) : n <:+: line := by
  have hwrites := h.apart .deferMeasurement
  simp only [TransformKind.writes, List.forall_mem_cons, -String.reduceToList] at hwrites
  obtain ⟨hbetween, hend, -⟩ := hwrites
  obtain ⟨rfl, -⟩ := deferred?_eq_some hd
  have hmargin : ∀ c ∈ indent line, isBlank c := fun _ => List.mem_takeWhile_imp
  obtain hn | hn := infix_of_blanks_append hmargin h.blank (hend.infix_left hn)
  · exact hn.trans (List.takeWhile_prefix _).isInfix
  · obtain ⟨s, hs, hn⟩ := hbetween.exists_of_intercalate hn
    rw [measurementsLast, List.mem_append, List.mem_filter, List.mem_filter] at hs
    exact hn.trans (isInfix_of_mem_statements (hs.elim And.left And.left))

theorem infix_of_deferMeasurement (h : Foreign n) (hn : n <:+: (deferMeasurement t i).fixed) :
    n <:+: t := by
  rw [fixed_deferMeasurement] at hn
  refine infix_of_unlines h.ne_nil h.newline (fun line hline hmem => ?_) hn
  obtain ⟨old, hold, rfl⟩ := List.mem_map.mp hline
  refine List.IsInfix.trans ?_ (isInfix_of_mem_lines hold)
  cases hd : deferred? old with
  | none => rwa [hd] at hmem
  | some new =>
    rw [hd] at hmem
    exact infix_of_deferred h hd hmem

/-! ## Fixes of logging, secrets and imports -/

theorem infix_of_replaceConsoleLog (h : Foreign n) (hn : n <:+: (replaceConsoleLog t i).fixed) :
    n <:+: t := by
  have hwrites := h.apart .replaceConsoleLog
  simp only [TransformKind.writes, List.forall_mem_cons, -String.reduceToList] at hwrites
  obtain ⟨hlogger, himport, -⟩ := hwrites
  have hlines : n <:+: unlines (((lines t).map fun line => (line, hitCount consoleLog line)).map
      fun row => logged row.1) → n <:+: t := by
    refine infix_of_unlines h.ne_nil h.newline fun line hline hmem => ?_
    rw [List.map_map] at hline
    obtain ⟨old, hold, rfl⟩ := List.mem_map.mp hline
    exact (infix_of_replaceHits (fun x _ => hlogger.keeps x.covered) hmem).trans
      (isInfix_of_mem_lines hold)
  rw [replaceConsoleLog] at hn
  dsimp only at hn
  split at hn
  · exact hn
  · dsimp only at hn
    split at hn
    · exact hlines hn
    · exact hlines (himport.infix_right hn)

/-- A look-up is made of the front of the assignment and of what keeps foreign words apart. -/
theorem keeps_externalized (h : Foreign n) {b : Option Char} {u v : Text}
    (hread : Reader.Reads (secretAssignment b) u v) : Keeps n u (externalized u) := by
  have hwrites := h.apart .externalizeSecrets
  simp only [TransformKind.writes, List.forall_mem_cons, -String.reduceToList] at hwrites
  obtain ⟨hcolon, hequals, henvironment, hdefault, -⟩ := hwrites
  obtain ⟨s, rfl⟩ := secretAssignment_parts hread
  have hsign : Apart n [s.sign, ' '] := by
    obtain e | e := s.sign_eq
    · rw [e]
      exact hcolon
    · rw [e]
      exact hequals
  intro a b hn
  have hparts : a ++ (externalized s.text ++ b) = (a ++ s.kept) ++ ([s.sign, ' '] ++
      ("process.env.".toList ++ (environmentName s.text ++
        (" || 'REPLACE_WITH_ENV_VAR'".toList ++ b)))) := by
    rw [s.externalized_text, Secret.lookup]
    simp only [List.append_assoc, List.cons_append, List.nil_append]
  rw [hparts] at hn
  obtain hn | hn := hsign.sides hn
  · exact .inl (hn.trans ((List.prefix_append_right_inj a).mpr s.kept_isPrefix_text).isInfix)
  obtain hn | hn := hdefault.sides (henvironment.infix_right hn)
  · exact absurd hn (h.not_infix_environmentName s)
  · exact .inr (hn.trans (List.suffix_append _ _).isInfix)

theorem infix_of_externalizeSecrets (h : Foreign n) (hn : n <:+: (externalizeSecrets t i).fixed) :
    n <:+: t := by
  rw [externalizeSecrets] at hn
  split at hn
  · exact hn
  · refine infix_of_replaceHits (fun x hx => ?_) hn
    obtain ⟨-, b, v, hread⟩ := reads_of_mem_hits hx
    exact keeps_externalized h hread

theorem infix_of_importOf (h : Foreign n) {line : Text} {l : ImportLine}
    (hl : importLine? line = some l) {ss : List Text}
    (hss : ∀ s ∈ ss, s ∈ importSpecifiers l.inside) (hn : n <:+: importOf l ss) :
    n <:+: line := by
  have hwrites := h.apart .pruneImports
  simp only [TransformKind.writes, List.forall_mem_cons, -String.reduceToList] at hwrites
  obtain ⟨hblank, hcomma, -⟩ := hwrites
  rw [importLine?_eq_some hl]
  rw [importOf] at hn
  simp only [List.append_assoc] at hn
  obtain hn | hn := hblank.sides hn
  · exact hn.trans (List.prefix_append _ _).isInfix
  obtain hn | hn := hblank.sides hn
  · obtain ⟨s, hs, hn⟩ := hcomma.exists_of_intercalate hn
    have hspecifier := hss s hs
    rw [importSpecifiers, List.mem_filter, List.mem_map] at hspecifier
    obtain ⟨⟨w, hw, rfl⟩, -⟩ := hspecifier
    have hinside : trim w <:+: l.inside := (trim_isInfix w).trans (isInfix_of_mem_splitOn hw)
    exact (hn.trans hinside).trans (List.infix_append' _ _ _)
  · exact hn.trans ((List.suffix_append _ _).trans (List.suffix_append _ _)).isInfix

/-- A line that is kept was kept before, or has no word that was not on the line it came from. -/
theorem Pruning.infix_of_mem_step (h : Foreign n) {s : Pruning} {line x : Text} {number : Nat}
    {after : List Text} (hx : x ∈ (s.step number line after).kept) (hn : n <:+: x) :
    x ∈ s.kept ∨ n <:+: line := by
  have hkeep : x ∈ line :: s.kept → x ∈ s.kept ∨ n <:+: line := by
    intro hx
    obtain rfl | hx := List.mem_cons.mp hx
    · exact .inr hn
    · exact .inl hx
  rw [step] at hx
  split at hx
  · exact hkeep hx
  · next l hl =>
    dsimp only at hx
    split at hx
    · exact hkeep hx
    · split at hx
      · exact .inl hx
      · obtain rfl | hx := List.mem_cons.mp hx
        · exact .inr (infix_of_importOf h hl (fun _ hs => (List.mem_filter.mp hs).1) hn)
        · exact .inl hx

theorem infix_of_mem_pruneFrom (h : Foreign n) {ls : List Text} {s : Pruning} {number : Nat}
    {x : Text} (hx : x ∈ (pruneFrom s number ls).kept) (hn : n <:+: x) :
    x ∈ s.kept ∨ ∃ line ∈ ls, n <:+: line := by
  induction ls generalizing s number with
  | nil => exact .inl hx
  | cons line after ih =>
    obtain hx | ⟨line', hline, hmem⟩ := ih hx
    · exact (Pruning.infix_of_mem_step h hx hn).imp_right fun h => ⟨line, List.mem_cons_self, h⟩
    · exact .inr ⟨line', List.mem_cons_of_mem line hline, hmem⟩

theorem infix_of_pruneImports (h : Foreign n) (hn : n <:+: (pruneImports t i).fixed) :
    n <:+: t := by
  rw [pruneImports] at hn
  split at hn
  · exact hn
  · refine infix_of_unlines h.ne_nil h.newline (fun x hx hmem => ?_) hn
    obtain hx | ⟨line, hline, hmem⟩ := infix_of_mem_pruneFrom h (List.mem_reverse.mp hx) hmem
    · cases hx
    · exact hmem.trans (isInfix_of_mem_lines hline)

end Fix

/-! ## All transforms -/

/-- **No transform brings in a foreign word**: where a fixed text has one, the text had it. -/
theorem infix_of_transform {n : Text} (hn : Foreign n) {k : TransformKind} {t : Text} {i : Issue}
    {f : Fix} (h : k.transform t i = .ok f) (hfixed : n <:+: f.fixed) : n <:+: t := by
  cases k with
  | bindEntanglement => exact Fix.infix_of_bindEntanglement (i := i) hn h hfixed
  | addErrorHandling => exact Fix.infix_of_addErrorHandling hn (Except.ok.inj h ▸ hfixed)
  | removeRedundantAsync => exact Fix.infix_of_removeRedundantAsync hn (Except.ok.inj h ▸ hfixed)
  | protectMeasurement => exact Fix.infix_of_protectMeasurement hn (Except.ok.inj h ▸ hfixed)
  | replaceConsoleLog => exact Fix.infix_of_replaceConsoleLog hn (Except.ok.inj h ▸ hfixed)
  | externalizeSecrets => exact Fix.infix_of_externalizeSecrets hn (Except.ok.inj h ▸ hfixed)
  | collapseSuperposition =>
    exact Fix.infix_of_collapseSuperposition hn (Except.ok.inj h ▸ hfixed)
  | pruneImports => exact Fix.infix_of_pruneImports hn (Except.ok.inj h ▸ hfixed)
  | annotateComplexity => exact Fix.infix_of_annotateComplexity hn (Except.ok.inj h ▸ hfixed)
  | deferMeasurement => exact Fix.infix_of_deferMeasurement hn (Except.ok.inj h ▸ hfixed)

/-! ## Calls and line ends -/

/-- Calls that write to the console are foreign. -/
theorem foreign_consoleCall : Foreign consoleCall where
  apart k := by cases k <;> decide +kernel
  newline := by decide
  blank := by decide
  sign := ⟨'(', by decide, by decide, by decide⟩

/-- Carriage returns are foreign. -/
theorem foreign_return : Foreign ['\r'] where
  apart k := by cases k <;> decide +kernel
  newline := by decide
  blank := by decide
  sign := ⟨'\r', by decide, by decide, by decide⟩

/-- **After the calls were replaced, there are none.** -/
theorem Fix.not_infix_replaceConsoleLog {t : Text} {i : Issue}
    (h : (replaceConsoleLog t i).success) :
    ¬ consoleCall <:+: (replaceConsoleLog t i).fixed := by
  have hforeign := foreign_consoleCall
  have hwrites := hforeign.apart .replaceConsoleLog
  simp only [TransformKind.writes, List.forall_mem_cons, -String.reduceToList] at hwrites
  obtain ⟨hlogger, himport, -⟩ := hwrites
  have hlines : ¬ consoleCall <:+: unlines (((lines t).map fun line =>
      (line, hitCount consoleLog line)).map fun row => logged row.1) := by
    -- a call on one of the lines would be one in the empty text
    refine fun hn => hforeign.ne_nil (List.infix_nil.mp ?_)
    refine infix_of_unlines hforeign.ne_nil hforeign.newline (fun line hline hcall => ?_) hn
    rw [List.map_map] at hline
    obtain ⟨old, -, rfl⟩ := List.mem_map.mp hline
    exact absurd hcall (hlogger.not_infix_replaceHits old)
  rw [replaceConsoleLog] at h ⊢
  dsimp only at h ⊢
  split
  · next hnone =>
    rw [if_pos hnone] at h
    cases h
  · dsimp only
    split
    · exact hlines
    · exact fun hn => hlines (himport.infix_right hn)

end Mend

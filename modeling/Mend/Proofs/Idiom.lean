import Mend.Idiom.Control
import Mend.Idiom.Hygiene
import Mend.Idiom.Quantum
import Mend.Proofs.Text.Characters
import Mend.Proofs.Text.Lines
import Mend.Proofs.Text.Scanning

/-!
# The parts of the shapes that are looked for

What each pattern that transforms look for reads, taken apart: which words, which white space and
which free parts follow one another. Only what the pattern reads is said here, not which of the
places where it could read it takes.

* `…_parts`: the parts of what a pattern reads.
* `leaks_of_bareEntanglement`, `misused_of_repeatedCollapse`, `misused_of_measuredCollapse`,
  `earlyMeasurement_of_line`: what a transform looks for is what a rule looks for.
* `entanglementIndent_eq`, `secretName_text`, …: the parts are what transforms take them to be.
-/

namespace Mend.Idiom

open Text Reader

variable {b : Option Char} {u v w : Text}

/-! ## Functions -/

instance : Within (asyncFunction b) := inferInstanceAs (Within (Pattern.atWord _ b))

theorem asyncFunction_parts (h : Reads (asyncFunction b) u v) :
    ∃ gap, u = "async".toList ++ gap ++ "function".toList ∧ ∀ c ∈ gap, isBlank c := by
  simp only [asyncFunction, reads_atWord, reads_seq_cons, reads_exactly, reads_someBlanks,
    reads_wordEnd, reads_seq_nil] at h
  obtain ⟨-, _, _, rfl, rfl, gap, _, rfl, ⟨-, hgap, -⟩, _, _, rfl, rfl, _, _, rfl, ⟨rfl, -⟩,
    rfl⟩ := h
  exact ⟨gap, by simp, hgap⟩

/-! ## Measurements -/

instance : Within statementEnd where
  le_length {t n} h := by
    have hle : (t.takeWhile isBlank).length ≤ t.length := (List.takeWhile_prefix _).length_le
    rw [statementEnd] at h
    dsimp only at h
    split at h
    · next hsemicolon =>
      obtain rfl := Option.some.inj h
      rw [List.head?_drop] at hsemicolon
      exact (List.getElem?_eq_some_iff.mp hsemicolon).1
    · split at h
      · obtain rfl := Option.some.inj h
        exact (Nat.sub_le _ _).trans hle
      · cases h

instance : Within (rawMeasurement b) := inferInstanceAs (Within (Pattern.anywhere _ b))

instance : Within (measureCall b) where
  le_length {t n} h := by
    rw [measureCall, Option.or_eq_some_iff] at h
    obtain h | ⟨-, h⟩ := h
    · exact Within.le_length h
    · exact Within.le_length h

/-- A call of `measureQuantum`, up to its arguments. -/
def rawCall : Text := "measureQuantum(".toList

/-- An `await` with the white space behind it, or nothing. -/
def Awaiting (w : Text) : Prop :=
  w = [] ∨ ∃ gap, w = "await".toList ++ gap ∧ gap ≠ [] ∧ ∀ c ∈ gap, isBlank c

theorem Awaiting.ne (h : Awaiting w) : ∀ c ∈ w, c ≠ 'm' ∧ c ≠ '(' := by
  obtain rfl | ⟨gap, rfl, -, hgap⟩ := h
  · simp
  · intro c hc
    have hawait : "await".toList.all fun d => d != 'm' && d != '(' := by decide
    obtain hc | hc := List.mem_append.mp hc
    · simpa using List.all_eq_true.mp hawait c hc
    · constructor
      all_goals
        rintro rfl
        exact absurd (hgap _ hc) (by decide)

/-- **What is protected is a whole-word call, with the `await` in front of it.** -/
theorem reads_measureCall : Reads (measureCall b) u v ↔
    ∃ w, u = w ++ rawCall ∧ Awaiting w ∧ ¬ (w.getLast?.or b).any isWord := by
  have hor : Reads (measureCall b) u v ↔
      Reads (.seq [.exactly "await".toList, .someBlanks, .exactly rawCall]) u v ∨
        ((Reader.seq [.exactly "await".toList, .someBlanks, .exactly rawCall] (u ++ v)) = none ∧
          Reads (Pattern.atWord (.exactly rawCall) b) u v) := by
    rw [Reads, measureCall, Option.or_eq_some_iff]
    rfl
  rw [hor, reads_atWord, reads_exactly]
  constructor
  · rintro (h | ⟨-, hb, rfl⟩)
    · simp only [reads_seq_cons, reads_exactly, reads_someBlanks, reads_seq_nil] at h
      obtain ⟨_, _, rfl, rfl, gap, _, rfl, ⟨hlen, hgap, -⟩, _, _, rfl, rfl, rfl⟩ := h
      have hne : gap ≠ [] := List.length_pos_iff.mp hlen
      refine ⟨"await".toList ++ gap, by rw [List.append_nil, List.append_assoc],
        .inr ⟨gap, rfl, hne, hgap⟩, ?_⟩
      rw [List.getLast?_append_of_ne_nil _ hne, List.getLast?_eq_some_getLast hne, Option.some_or,
        Option.any_some]
      exact not_isWord_of_isBlank (hgap _ (List.getLast_mem hne))
    · exact ⟨[], rfl, .inl rfl, by simpa using hb⟩
  · rintro ⟨w, rfl, rfl | ⟨gap, rfl, hne, hgap⟩, hw⟩
    · exact .inr ⟨rfl, by simpa using hw, rfl⟩
    · left
      have hstop : ¬ (rawCall ++ v).head?.any isBlank := (by decide : ¬ isBlank 'm')
      simp only [reads_seq_cons, reads_exactly, reads_someBlanks, reads_seq_nil]
      exact ⟨_, _, List.append_assoc _ _ _, rfl, gap, _, rfl,
        ⟨List.length_pos_iff.mpr hne, hgap, hstop⟩, rawCall, [], by rw [List.append_nil], rfl,
        rfl⟩

theorem measureCall_parts (h : Reads (measureCall b) u v) :
    (∃ gap, u = "await".toList ++ gap ++ "measureQuantum(".toList ∧ ∀ c ∈ gap, isBlank c) ∨
      u = "measureQuantum(".toList := by
  obtain ⟨w, rfl, rfl | ⟨gap, rfl, -, hgap⟩, -⟩ := reads_measureCall.mp h
  · exact .inr rfl
  · exact .inl ⟨gap, rfl, hgap⟩

/-! ## Entanglements -/

instance : Within (bareEntanglement b) := inferInstanceAs (Within (Pattern.atLine _ b))

theorem bareEntanglement_parts (h : Reads (bareEntanglement b) u v) :
    ∃ margin arguments, u = margin ++ ("entangle(".toList ++ (arguments ++ ");".toList)) ∧
      (∀ c ∈ margin, isLineBlank c) ∧ arguments ≠ [] ∧ ')' ∉ arguments := by
  simp only [bareEntanglement, reads_atLine, reads_seq_cons, reads_exactly, reads_many,
    reads_atLeast, reads_seq_nil] at h
  obtain ⟨-, margin, _, rfl, ⟨hm, -⟩, _, _, rfl, rfl, arguments, _, rfl, ⟨hlen, ha, -⟩, _, _, rfl,
    rfl, rfl⟩ := h
  refine ⟨margin, arguments, by simp, hm, List.length_pos_iff.mp hlen, fun hc => ?_⟩
  simpa using ha _ hc

theorem entanglementIndent_eq {margin rest : Text} (h : ∀ c ∈ margin, isLineBlank c) :
    entanglementIndent (margin ++ ("entangle(".toList ++ rest)) = margin := by
  rw [entanglementIndent, List.takeWhile_append_of_pos h]
  simp [isLineBlank]

instance : Within (entanglementName b) := inferInstanceAs (Within (Pattern.atWord _ b))

theorem isWord_of_mem_entanglementStem {c : Char} (h : c ∈ entanglementStem) : isWord c := by
  have hstem : entanglementStem.all isWord := by decide
  exact List.all_eq_true.mp hstem c h

/-- A name of the kind that bound entanglements get is a whole word of the stem and digits. -/
theorem reads_entanglementName_iff : Reads (entanglementName b) u v ↔ ¬ b.any isWord ∧
    ¬ v.head?.any isWord ∧
    ∃ digits, u = entanglementStem ++ digits ∧ digits ≠ [] ∧ ∀ c ∈ digits, isDecimal c := by
  simp only [entanglementName, reads_atWord, reads_seq_cons, reads_exactly, reads_atLeast,
    reads_wordEnd, reads_seq_nil]
  constructor
  · rintro ⟨hb, _, _, rfl, rfl, digits, _, rfl, ⟨hlen, hdigits, -⟩, _, _, rfl, ⟨rfl, hv⟩, rfl⟩
    exact ⟨hb, hv, digits, by simp, List.length_pos_iff.mp hlen, hdigits⟩
  · rintro ⟨hb, hv, digits, rfl, nonempty, hdigits⟩
    have hstop : ¬ v.head?.any isDecimal := by
      cases v with
      | nil => simp
      | cons c v => exact fun hc => hv (isWord_of_isDecimal hc)
    exact ⟨hb, _, digits, rfl, rfl, digits, [], by simp,
      ⟨List.length_pos_iff.mpr nonempty, hdigits, by simpa using hstop⟩, [], [], rfl,
      ⟨rfl, by simpa using hv⟩, rfl⟩

/-- A text that consists of a name of the kind that bound entanglements get. -/
theorem reads_entanglementName {digits : Text} (nonempty : digits ≠ [])
    (h : ∀ c ∈ digits, isDecimal c) :
    Reads (entanglementName none) (entanglementStem ++ digits) [] :=
  reads_entanglementName_iff.mpr ⟨by simp, by simp, digits, rfl, nonempty, h⟩

/-- What entangles and keeps no name for the result is not released in its own statement. -/
theorem leaks_of_bareEntanglement (h : Reads (bareEntanglement b) u v) :
    ∃ margin entangled, u = margin ++ (entangled ++ [';']) ∧ entangled ≠ [] ∧
      Reads (leakedEntanglement (margin.getLast?.or b)) entangled (';' :: v) := by
  have hline := (reads_atLine.mp h).1
  obtain ⟨margin, arguments, rfl, hmargin, hne, harguments⟩ := bareEntanglement_parts h
  refine ⟨margin, "entangle(".toList ++ (arguments ++ [')']), by simp, by simp, ?_⟩
  have hword : ¬ (margin.getLast?.or b).any isWord := by
    cases hlast : margin.getLast? with
    | some c =>
      have hc := hmargin c (List.mem_of_getLast? hlast)
      rw [isLineBlank, Bool.or_eq_true, beq_iff_eq, beq_iff_eq] at hc
      rw [Option.some_or]
      obtain rfl | rfl := hc <;> decide
    | none =>
      cases b with
      | none => simp
      | some c =>
        obtain rfl : c = '\n' := by simpa using hline
        decide
  have hfree : ∀ c ∈ arguments, (c != ')') = true := by
    rintro c hc
    exact bne_iff_ne.mpr fun e => harguments (e ▸ hc)
  simp only [leakedEntanglement, reads_atWord, reads_seq_cons, reads_exactly, reads_atLeast,
    reads_one, reads_ahead, reads_seq_nil]
  refine ⟨hword, _, _, rfl, rfl, _, _, rfl, ⟨List.length_pos_iff.mpr hne, hfree, by simp⟩, _, [],
    (List.append_nil _).symm, ⟨')', rfl, by simp⟩, [], [], rfl, ⟨rfl, ?_⟩, rfl⟩
  simp [released, contains]

instance : Within (leakedEntanglement b) := inferInstanceAs (Within (Pattern.atWord _ b))

/-! ## Measurements before other operations -/

/-- A word is read on a line if one starts before the line ends. -/
theorem isSome_lastOnLineFrom {word : Reader} {t : Text} {passed : Nat} {best : Option Nat} :
    (lastOnLineFrom word passed best t).isSome ↔
      best.isSome ∨ ∃ x c y, t = x ++ c :: y ∧ '\n' ∉ x ++ [c] ∧ (word (c :: y)).isSome := by
  induction t generalizing passed best with
  | nil => simp [lastOnLineFrom]
  | cons c t ih =>
    rw [lastOnLineFrom]
    by_cases hc : c = '\n'
    · rw [if_pos hc]
      refine ⟨.inl, ?_⟩
      rintro (h | ⟨x, d, y, e, hline, -⟩)
      · exact h
      · have hhead : c ∈ x ++ [d] := by
          cases x <;> simp_all
        exact absurd (hc ▸ hhead) hline
    · rw [if_neg hc, ih, Option.isSome_or, Option.isSome_map, Bool.or_eq_true]
      constructor
      · rintro ((h | h) | ⟨x, d, y, rfl, hline, h⟩)
        · exact .inr ⟨[], c, t, rfl, by simpa using Ne.symm hc, h⟩
        · exact .inl h
        · exact .inr ⟨c :: x, d, y, rfl, by simpa [Ne.symm hc] using hline, h⟩
      · rintro (h | ⟨x, d, y, e, hline, h⟩)
        · exact .inl (.inr h)
        · cases x with
          | nil =>
            obtain ⟨rfl, rfl⟩ := List.cons.inj e
            exact .inl (.inl h)
          | cons d' x =>
            obtain ⟨rfl, rfl⟩ := List.cons.inj e
            exact .inr ⟨x, d, y, rfl, fun hn => hline (List.mem_cons_of_mem _ hn), h⟩

theorem lastOnLineFrom_le {word : Reader} [Within word] {t : Text} {passed n : Nat}
    {best : Option Nat} (h : lastOnLineFrom word passed best t = some n) :
    n ≤ passed + t.length ∨ best = some n := by
  induction t generalizing passed best with
  | nil => exact .inr h
  | cons c t ih =>
    rw [lastOnLineFrom] at h
    split at h
    · exact .inr h
    · obtain h | h := ih h
      · exact .inl (by simpa [Nat.add_assoc, Nat.add_comm 1] using h)
      · rw [Option.or_eq_some_iff, Option.map_eq_some_iff] at h
        obtain ⟨m, hm, rfl⟩ | ⟨-, h⟩ := h
        · exact .inl (Nat.add_le_add_left (Within.le_length hm) passed)
        · exact .inr h

instance {word : Reader} [Within word] : Within (lastOnLine word) where
  le_length h := by
    obtain h | h := lastOnLineFrom_le h
    · simpa using h
    · cases h

instance : Within (earlyMeasurement b) := inferInstanceAs (Within (Pattern.anywhere _ b))

/-- **A measurement that is early on its line is early in every text with that line.** -/
theorem earlyMeasurement_of_line (h : Reads (earlyMeasurement b) u v) (b' : Option Char)
    (tail : Text) :
    ∃ u' v', u ++ (v ++ tail) = u' ++ v' ∧ u' ≠ [] ∧ Reads (earlyMeasurement b') u' v' := by
  simp only [earlyMeasurement, reads_anywhere, reads_seq_cons, reads_exactly, reads_through,
    reads_seq_nil] at h
  obtain ⟨_, _, rfl, rfl, _, _, rfl, ⟨operand, rfl, hoperand⟩, last, _, rfl, hlast, rfl⟩ := h
  rw [List.append_nil, List.nil_append] at *
  -- the operation that comes last on the line still does so, or another one comes later
  have hextended : (lastOnLine (.oneOf [.exactly "entangle".toList, .exactly "superpose".toList])
      (last ++ v ++ tail)).isSome := by
    have hsome := Option.isSome_of_mem hlast
    rw [lastOnLine, isSome_lastOnLineFrom] at hsome ⊢
    obtain h | ⟨x, c, y, e, hline, hword⟩ := hsome
    · cases h
    · refine .inr ⟨x, c, y ++ tail, by rw [e]; simp, hline, ?_⟩
      rw [isSome_oneOf] at hword ⊢
      obtain ⟨r, hr, hword⟩ := hword
      refine ⟨r, hr, ?_⟩
      simp only [List.mem_cons, List.not_mem_nil, or_false] at hr
      obtain rfl | rfl := hr
      all_goals
        rw [isSome_exactly] at hword ⊢
        exact hword.trans (List.prefix_append (c :: y) tail)
  obtain ⟨n, hn⟩ := Option.isSome_iff_exists.mp hextended
  obtain ⟨last', v', e, -, hread⟩ := exists_reads hn
  refine ⟨"measure(".toList ++ (operand ++ [')'] ++ last'), v', ?_, by simp, ?_⟩
  · simp only [List.append_assoc] at e ⊢
    rw [e]
  · simp only [earlyMeasurement, reads_anywhere, reads_seq_cons, reads_exactly, reads_through,
      reads_seq_nil]
    exact ⟨_, _, rfl, rfl, _, _, rfl, ⟨operand, rfl, hoperand⟩, last', [], by simp, hread, rfl⟩

/-! ## Superpositions -/

/-- A call of a member: a dot with white space around it, and the call. -/
def IsMember (call u : Text) : Prop :=
  ∃ g g', u = g ++ '.' :: (g' ++ call) ∧ (∀ c ∈ g, isBlank c) ∧ ∀ c ∈ g', isBlank c

theorem member_parts {call : Text} (h : Reads (member (.exactly call)) u v) : IsMember call u := by
  simp only [member, reads_seq_cons, reads_exactly, reads_blanks, reads_one, reads_seq_nil] at h
  obtain ⟨g, _, rfl, ⟨hg, -⟩, _, _, rfl, ⟨d, rfl, hd⟩, g', _, rfl, ⟨hg', -⟩, _, _, rfl, rfl,
    rfl⟩ := h
  obtain rfl : d = '.' := by simpa using hd
  exact ⟨g, g', by simp, hg, hg'⟩

instance {name : Reader} [Within name] : Within (member name) :=
  inferInstanceAs (Within (.seq [.blanks, .one (· == '.'), .blanks, name]))

/-- A member is read where a call of it starts. -/
theorem reads_member {name : Reader} [Within name] {call u v : Text} (h : IsMember call u)
    (hname : Reads name call v) (hstart : ¬ (call ++ v).head?.any isBlank) :
    Reads (member name) u v := by
  obtain ⟨g, g', rfl, hg, hg'⟩ := h
  simp only [member, reads_seq_cons, reads_blanks, reads_one, reads_seq_nil]
  exact ⟨g, _, rfl, ⟨hg, by simp [isBlank]⟩, ['.'], _, rfl, ⟨'.', rfl, by simp⟩, g', _, rfl,
    ⟨hg', by simpa using hstart⟩, call, [], by simp, hname, rfl⟩

/-- The rest of a call can be left out. -/
theorem IsMember.exists_append (call rest : Text) {u : Text} (h : IsMember (call ++ rest) u) :
    ∃ u', u = u' ++ rest ∧ IsMember call u' := by
  obtain ⟨g, g', rfl, hg, hg'⟩ := h
  exact ⟨g ++ '.' :: (g' ++ call), by simp, g, g', rfl, hg, hg'⟩

/-- A call of a member has the characters of the call, a dot and white space. -/
theorem IsMember.not_mem {call m : Text} {c : Char} (h : IsMember call m)
    (hc : ¬ isBlank c ∧ c ≠ '.') (hcall : c ∉ call) : c ∉ m := by
  obtain ⟨g, g', rfl, hg, hg'⟩ := h
  simp only [List.mem_append, List.mem_cons, not_or]
  exact ⟨fun h => hc.1 (hg c h), hc.2, fun h => hc.1 (hg' c h), hcall⟩

theorem IsMember.length_lt {call m : Text} (h : IsMember call m) : call.length < m.length := by
  obtain ⟨g, g', rfl, -⟩ := h
  simp only [List.length_append, List.length_cons]
  omega

instance : Within collapseCall := inferInstanceAs (Within (member _))

instance : Within (measuredCollapse b) := inferInstanceAs (Within (Pattern.anywhere _ b))

instance : Within (repeatedCollapse b) := inferInstanceAs (Within (Pattern.anywhere _ b))

theorem measuredCollapse_parts (h : Reads (measuredCollapse b) u v) :
    ∃ first second, u = "superposition".toList ++ (first ++ second) ∧
      IsMember "collapse()".toList first ∧ IsMember "measure()".toList second := by
  simp only [measuredCollapse, reads_anywhere, reads_seq_cons, reads_exactly, reads_seq_nil] at h
  obtain ⟨_, _, rfl, rfl, first, _, rfl, hf, second, _, rfl, hs, rfl⟩ := h
  exact ⟨first, second, by simp, member_parts hf, member_parts hs⟩

theorem repeatedCollapse_parts (h : Reads (repeatedCollapse b) u v) :
    ∃ (first second : Text) (rest : List Text),
      u = "superposition".toList ++ (first ++ (second ++ rest.flatten)) ∧
      IsMember "collapse()".toList first ∧ IsMember "collapse()".toList second ∧
      ∀ w ∈ rest, IsMember "collapse()".toList w := by
  simp only [repeatedCollapse, reads_anywhere, reads_seq_cons, reads_exactly, reads_seq_nil] at h
  obtain ⟨_, _, rfl, rfl, first, _, rfl, hf, second, _, rfl, hs, _, _, rfl, hr, rfl⟩ := h
  obtain ⟨ws, rfl, hws⟩ := exists_of_reads_repeated hr
  refine ⟨first, second, ws, by simp, member_parts hf, member_parts hs, fun w hw => ?_⟩
  obtain ⟨v', h'⟩ := hws w hw
  exact member_parts h'

instance : Within (misusedSuperposition b) := inferInstanceAs (Within (Pattern.anywhere _ b))

/-- A second call of either kind is a misuse. -/
theorem reads_misusedSuperposition {first second word : Text}
    (hfirst : IsMember "collapse()".toList first) (hsecond : IsMember word second)
    (hword : word = "collapse".toList ∨ word = "measure".toList) :
    Reads (misusedSuperposition b) ("superposition".toList ++ (first ++ second)) v := by
  have hcall : Reads collapseCall first (second ++ v) :=
    reads_member hfirst (reads_exactly.mpr rfl) (by simp [isBlank])
  have hagain : Reads (member (.oneOf [.exactly "collapse".toList, .exactly "measure".toList]))
      second v := by
    refine reads_member hsecond ?_ ?_
    · obtain rfl | rfl := hword
      · exact reads_oneOf_cons.mpr (.inl (reads_exactly.mpr rfl))
      · refine reads_oneOf_cons.mpr (.inr ⟨?_, reads_oneOf_cons.mpr (.inl (reads_exactly.mpr rfl))⟩)
        simp [exactly]
    · obtain rfl | rfl := hword <;> simp [isBlank]
  simp only [misusedSuperposition, reads_anywhere, reads_seq_cons, reads_exactly, reads_seq_nil]
  exact ⟨_, _, rfl, rfl, first, _, rfl, hcall, second, [], by simp, hagain, rfl⟩

/-- A superposition that is collapsed again is misused. -/
theorem misused_of_repeatedCollapse (h : Reads (repeatedCollapse b) u v) :
    ∃ u' w, u = u' ++ w ∧ u' ≠ [] ∧ Reads (misusedSuperposition b) u' (w ++ v) := by
  obtain ⟨first, second, rest, rfl, hfirst, hsecond, -⟩ := repeatedCollapse_parts h
  obtain ⟨second', rfl, hsecond'⟩ := IsMember.exists_append "collapse".toList "()".toList hsecond
  exact ⟨_, "()".toList ++ rest.flatten, by simp, by simp,
    reads_misusedSuperposition hfirst hsecond' (.inl rfl)⟩

/-- A superposition that is measured after it has collapsed is misused. -/
theorem misused_of_measuredCollapse (h : Reads (measuredCollapse b) u v) :
    ∃ u' w, u = u' ++ w ∧ u' ≠ [] ∧ Reads (misusedSuperposition b) u' (w ++ v) := by
  obtain ⟨first, second, rfl, hfirst, hsecond⟩ := measuredCollapse_parts h
  obtain ⟨second', rfl, hsecond'⟩ := IsMember.exists_append "measure".toList "()".toList hsecond
  exact ⟨_, "()".toList, by simp, by simp,
    reads_misusedSuperposition hfirst hsecond' (.inr rfl)⟩

/-! ## Logging -/

instance : Within (consoleLog b) := inferInstanceAs (Within (Pattern.anywhere _ b))

@[simp] theorem reads_consoleLog : Reads (consoleLog b) u v ↔ u = "console.log(".toList := by
  rw [consoleLog, reads_anywhere, reads_exactly]

/-- The call that writes to the console. -/
def consoleCall : Text := "console.log(".toList

/-- **A call that writes to the console is hit wherever it stands.** -/
theorem hits_consoleLog_iff {t : Text} : hits consoleLog t ≠ [] ↔ consoleCall <:+: t := by
  rw [hits_ne_nil_iff]
  constructor
  · rintro ⟨a, u, v, rfl, -, hread⟩
    rw [reads_consoleLog.mp hread]
    exact List.infix_append' _ _ _
  · rintro ⟨a, v, rfl⟩
    exact ⟨a, consoleCall, v, by simp, by decide, reads_consoleLog.mpr rfl⟩

/-! ## Secrets -/

theorem isQuote_cases {c : Char} (h : isQuote c) : c = '\'' ∨ c = '"' ∨ c = '\x60' := by
  simpa [isQuote] using h

theorem not_isWord_of_isQuote {c : Char} (h : isQuote c) : ¬ isWord c := by
  obtain rfl | rfl | rfl := isQuote_cases h <;> decide

theorem not_isBlank_of_isQuote {c : Char} (h : isQuote c) : ¬ isBlank c := by
  obtain rfl | rfl | rfl := isQuote_cases h <;> decide

instance {p : Char → Bool} : Within (assignedLiteral p) :=
  inferInstanceAs (Within (.seq [.blanks, .one isAssignment, .blanks, .one isQuote,
    .atLeast secretLength p, .one isQuote]))

instance : Within (secretAssignment b) := inferInstanceAs (Within (Pattern.atWord _ b))

/-- An assignment of a secret in parts. -/
structure Secret where
  name : Text
  /-- The white space in front of the sign. -/
  gap : Text
  sign : Char
  /-- The white space behind the sign. -/
  space : Text
  opening : Char
  secret : Text
  closing : Char
  word_of_mem_name : ∀ c ∈ name, isWord c
  /-- The name ends where it is taken to end. -/
  name_ends : ¬ (gap ++ [sign]).head?.any isWord
  blank_of_mem_gap : ∀ c ∈ gap, isBlank c
  sign_assigns : isAssignment sign
  blank_of_mem_space : ∀ c ∈ space, isBlank c
  opening_quotes : isQuote opening

namespace Secret

variable (s : Secret)

/-- What is assigned, from the sign on. -/
def assigned : Text := s.sign :: (s.space ++ s.opening :: (s.secret ++ [s.closing]))

/-- The text of an assignment. -/
def text : Text := s.name ++ (s.gap ++ s.assigned)

theorem sign_eq : s.sign = ':' ∨ s.sign = '=' := by
  simpa [isAssignment] using s.sign_assigns

theorem name_stops : ¬ (s.gap ++ s.assigned).head?.any isWord := by
  have h := s.name_ends
  rw [List.head?_append] at h ⊢
  exact h

theorem gap_stops : ¬ s.assigned.head?.any isBlank := by
  obtain h | h := s.sign_eq
  · simp [assigned, h, isBlank]
  · simp [assigned, h, isBlank]

@[simp] theorem secretName_text : secretName s.text = s.name :=
  takeWhile_append_stop s.word_of_mem_name s.name_stops

@[simp] theorem secretGap_text : secretGap s.text = s.gap := by
  rw [secretGap, text, dropWhile_append_stop s.word_of_mem_name s.name_stops]
  exact takeWhile_append_stop s.blank_of_mem_gap s.gap_stops

@[simp] theorem secretIsProperty_text : secretIsProperty s.text = (s.sign == ':') := by
  rw [secretIsProperty, text, dropWhile_append_stop s.word_of_mem_name s.name_stops,
    dropWhile_append_stop s.blank_of_mem_gap s.gap_stops]
  rfl

end Secret

/-- An assignment of a secret has a name, and between quotes the characters of encoded keys. -/
theorem secretAssignment_secret (h : Reads (secretAssignment b) u v) :
    ∃ s : Secret, u = s.text ∧ s.name ≠ [] ∧ (∀ c ∈ s.secret, isSecretChar c) ∧
      isQuote s.closing := by
  simp only [secretAssignment, assignedLiteral, reads_atWord, reads_seq_cons, reads_atLeast,
    reads_blanks, reads_one, reads_seq_nil] at h
  obtain ⟨-, name, _, rfl, ⟨hlen, hname, hends⟩, _, _, rfl, ⟨gap, _, rfl, ⟨hgap, -⟩, _, _, rfl,
    ⟨sign, rfl, hsign⟩, space, _, rfl, ⟨hspace, -⟩, _, _, rfl, ⟨opening, rfl, hopening⟩, secret, _,
    rfl, ⟨-, hsecret, -⟩, _, _, rfl, ⟨closing, rfl, hclosing⟩, rfl⟩, rfl⟩ := h
  refine ⟨⟨name, gap, sign, space, opening, secret, closing, hname, ?_, hgap, hsign, hspace,
    hopening⟩, by simp [Secret.text, Secret.assigned], List.length_pos_iff.mp hlen, hsecret,
    hclosing⟩
  simpa [List.head?_append] using hends

theorem secretAssignment_parts (h : Reads (secretAssignment b) u v) : ∃ s : Secret, u = s.text := by
  obtain ⟨s, hs, -⟩ := secretAssignment_secret h
  exact ⟨s, hs⟩

/-- An assignment of a secret is read wherever it stands, unless in the middle of a word. -/
theorem reads_secretAssignment (h : Reads (secretAssignment b) u v) {b' : Option Char}
    (hb : ¬ b'.any isWord) (v' : Text) : Reads (secretAssignment b') u v' := by
  simp only [secretAssignment, assignedLiteral, reads_atWord, reads_seq_cons, reads_atLeast,
    reads_blanks, reads_one, reads_seq_nil] at h ⊢
  obtain ⟨-, name, _, rfl, hname, _, _, rfl, ⟨gap, _, rfl, hgap, _, _, rfl,
    ⟨sign, rfl, hsign⟩, space, _, rfl, hspace, _, _, rfl, ⟨opening, rfl, hopening⟩, secret, _,
    rfl, hsecret, _, _, rfl, ⟨closing, rfl, hclosing⟩, rfl⟩, rfl⟩ := h
  -- the runs are stopped by what is read next, whatever follows the closing quote
  exact ⟨hb, name, _, rfl, by simpa [List.head?_append] using hname, _, [], by simp,
    ⟨gap, _, rfl, by simpa [List.head?_append] using hgap, [sign], _, rfl, ⟨sign, rfl, hsign⟩,
      space, _, rfl, by simpa [List.head?_append] using hspace, [opening], _, rfl,
      ⟨opening, rfl, hopening⟩, secret, _, rfl, by simpa [List.head?_append] using hsecret,
      [closing], [], rfl, ⟨closing, rfl, hclosing⟩, rfl⟩, rfl⟩

/-! ## Imports -/

instance : Within (namedImport b) := inferInstanceAs (Within (Pattern.anywhere _ b))

theorem namedImport_parts (h : Reads (namedImport b) u v) :
    ∃ opening inside rest, u = opening ++ '{' :: (inside ++ '}' :: rest) ∧ '{' ∉ opening ∧
      '}' ∉ inside := by
  simp only [namedImport, reads_anywhere, reads_seq_cons, reads_exactly, reads_someBlanks,
    reads_one, reads_atLeast, reads_seq_nil] at h
  obtain ⟨_, _, rfl, rfl, gap, _, rfl, ⟨-, hgap, -⟩, _, _, rfl, ⟨o, rfl, ho⟩, inside, _, rfl,
    ⟨-, hinside, -⟩, _, _, rfl, ⟨c, rfl, hc⟩, gap', _, rfl, -, _, _, rfl, rfl, rfl⟩ := h
  obtain rfl : o = '{' := by simpa using ho
  obtain rfl : c = '}' := by simpa using hc
  refine ⟨"import".toList ++ gap, inside, gap' ++ "from".toList, by simp, ?_, ?_⟩
  · intro h
    obtain h | h := List.mem_append.mp h
    · simp at h
    · exact absurd (hgap _ h) (by decide)
  · intro h
    simpa using hinside _ h

/-- An import line is cut without loss. -/
theorem importLine?_eq_some {line : Text} {l : ImportLine} (h : importLine? line = some l) :
    line = l.head ++ (l.inside ++ l.tail) := by
  rw [importLine?, Option.map_eq_some_iff] at h
  obtain ⟨m, hm, rfl⟩ := h
  obtain ⟨-, hread⟩ := firstMatch?_reads hm
  obtain ⟨opening, inside, rest, hcovered, hopening, -⟩ := namedImport_parts hread
  have hstop : m.covered.takeWhile (· != '{') = opening := by
    rw [hcovered]
    refine takeWhile_append_stop (fun c hc => ?_) (by simp)
    simp only [bne_iff_ne, ne_eq]
    rintro rfl
    exact hopening hc
  have hdrop : m.covered.drop (opening.length + 1) = inside ++ '}' :: rest := by
    simp [hcovered]
  dsimp only
  rw [hstop, hdrop, ← List.append_assoc (List.takeWhile _ _), List.takeWhile_append_dropWhile,
    ← firstMatch?_eq_some hm, hcovered]
  simp

theorem mem_importSpecifiers {inside s : Text} (h : s ∈ importSpecifiers inside) :
    Trimmed s ∧ s ≠ [] ∧ ',' ∉ s ∧ ∀ c ∈ s, c ∈ inside := by
  rw [importSpecifiers, List.mem_filter, List.mem_map] at h
  obtain ⟨⟨w, hw, rfl⟩, hne⟩ := h
  have hsub : ∀ c ∈ trim w, c ∈ w := fun c hc => (trim_isInfix w).subset hc
  refine ⟨trimmed_trim w, by simpa using hne, fun hc => not_mem_of_mem_splitOn hw (hsub _ hc),
    fun c hc => mem_of_mem_splitOn hw (hsub c hc)⟩

theorem blank_of_mem_space : ∀ c ∈ [' '], isBlank c := List.forall_mem_singleton.mpr (by decide)

/-- The specifiers of an import that is written with them are these specifiers. -/
theorem importSpecifiers_intercalate :
    ∀ {ss : List Text}, (∀ s ∈ ss, Trimmed s ∧ s ≠ [] ∧ ',' ∉ s) → ss ≠ [] →
      importSpecifiers (' ' :: (List.intercalate ", ".toList ss ++ [' '])) = ss
  | [], _, h => absurd rfl h
  | [s], h, _ => by
    obtain ⟨htrim, hne, hcomma⟩ := h s (by simp)
    have hs : trim ([' '] ++ (s ++ [' '])) = s :=
      trim_append blank_of_mem_space blank_of_mem_space htrim
    have hsplit : (' ' :: (s ++ [' '])).splitOn ',' = [' ' :: (s ++ [' '])] :=
      List.splitOn_eq_singleton (by simp [hcomma])
    rw [List.singleton_append] at hs
    simp [importSpecifiers, hsplit, hs, hne]
  | s :: s' :: ss, h, _ => by
    obtain ⟨htrim, hne, hcomma⟩ := h s (by simp)
    have hs : trim ([' '] ++ (s ++ [])) = s :=
      trim_append blank_of_mem_space (by simp) htrim
    have ih := importSpecifiers_intercalate (fun x hx => h x (List.mem_cons_of_mem _ hx))
      (List.cons_ne_nil s' ss)
    rw [List.append_nil, List.singleton_append] at hs
    rw [importSpecifiers] at ih ⊢
    have hsplit : (' ' :: (List.intercalate ", ".toList (s :: s' :: ss) ++ [' '])).splitOn ',' =
        (' ' :: s) :: (' ' :: (List.intercalate ", ".toList (s' :: ss) ++ [' '])).splitOn ',' := by
      have hs : ',' ∉ ' ' :: s := by simp [hcomma]
      rw [← List.splitOn_append_cons_self_of_not_mem hs]
      simp [List.intercalate_cons_cons]
    rw [hsplit, List.map_cons, hs, List.filter_cons, ih]
    simp [hne]

end Mend.Idiom

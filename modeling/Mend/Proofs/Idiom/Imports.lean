import Mend.Fix.Hygiene
import Mend.Proofs.Fix.Hygiene
import Mend.Proofs.Idiom
import Mend.Proofs.Text.FirstMatch
import Mend.Proofs.Text.Mentions

/-!
# Imports that are written with other specifiers

Whatever is written between the braces of an import, the line is cut at the same braces: an import
that was none before does not come up, since what it would be read as holds the opening brace or
ends in front of it.

* `ImportFrame`: what stands around the braces of the import of a line.
* `importLine?_iff`: a line is cut at the braces of the first import in it.
* `importLine?_importOf`: an import that is written with some of its specifiers is read back.
* `mentions_of_mentions_importOf`: no name is mentioned in it that was not mentioned before.
-/

namespace Mend

open Text Reader

namespace Idiom

variable {b : Option Char} {t u v : Text}

/-! ## What is around the braces -/

/-- What stands around the braces of an import, and around the import. -/
structure ImportFrame where
  before : Text
  /-- The white space in front of the opening brace. -/
  gap : Text
  /-- The white space behind the closing brace. -/
  space : Text
  after : Text
  gap_ne_nil : gap ≠ []
  blank_of_mem_gap : ∀ c ∈ gap, isBlank c
  space_ne_nil : space ≠ []
  blank_of_mem_space : ∀ c ∈ space, isBlank c

namespace ImportFrame

variable (f : ImportFrame)

/-- An import up to its opening brace. -/
def opening : Text := "import".toList ++ f.gap

/-- An import from behind its closing brace on. -/
def closing : Text := f.space ++ "from".toList

/-- The import with this between its braces. -/
def covered (inside : Text) : Text := f.opening ++ '{' :: (inside ++ '}' :: f.closing)

/-- The line with this between the braces. -/
def line (inside : Text) : ImportLine where
  head := f.before ++ (f.opening ++ ['{'])
  inside := inside
  tail := '}' :: (f.closing ++ f.after)

theorem covered_eq (inside : Text) :
    f.covered inside =
      "import".toList ++ f.gap ++ '{' :: (inside ++ '}' :: (f.space ++ "from".toList)) := by
  unfold covered opening closing
  rfl

theorem not_mem_opening {c : Char} (hc : ¬ isBlank c ∧ c ∉ "import".toList) : c ∉ f.opening := by
  unfold opening
  rw [List.mem_append, not_or]
  exact ⟨hc.2, fun h => hc.1 (f.blank_of_mem_gap c h)⟩

theorem not_mem_closing {c : Char} (hc : ¬ isBlank c ∧ c ∉ "from".toList) : c ∉ f.closing := by
  unfold closing
  rw [List.mem_append, not_or]
  exact ⟨fun h => hc.1 (f.blank_of_mem_space c h), hc.2⟩

end ImportFrame

/-- What stands between the braces of an import. -/
def Inside (s : Text) : Prop := s ≠ [] ∧ '}' ∉ s

theorem reads_namedImport_iff :
    Reads (namedImport b) u v ↔ ∃ (f : ImportFrame) (s : Text), Inside s ∧ u = f.covered s := by
  simp only [namedImport, reads_anywhere, reads_seq_cons, reads_exactly, reads_someBlanks,
    reads_one, reads_atLeast, reads_seq_nil]
  constructor
  · rintro ⟨_, _, rfl, rfl, gap, _, rfl, ⟨hgap, hblank, -⟩, _, _, rfl, ⟨o, rfl, ho⟩, inside, _, rfl,
      ⟨hinside, hfree, -⟩, _, _, rfl, ⟨c, rfl, hc⟩, space, _, rfl, ⟨hspace, hblank', -⟩, _, _, rfl,
      rfl, rfl⟩
    obtain rfl : o = '{' := by simpa using ho
    obtain rfl : c = '}' := by simpa using hc
    refine ⟨⟨[], gap, space, [], List.length_pos_iff.mp hgap, hblank, List.length_pos_iff.mp hspace,
      hblank'⟩, inside, ⟨List.length_pos_iff.mp hinside, fun h => ?_⟩, ?_⟩
    · simpa using hfree _ h
    · simp [ImportFrame.covered_eq]
  · rintro ⟨f, s, ⟨hne, hfree⟩, rfl⟩
    have hfree := bne_of_not_mem hfree
    have hparts : f.covered s = "import".toList ++ (f.gap ++ (['{'] ++ (s ++ (['}'] ++ (f.space ++
        ("from".toList ++ [])))))) := by
      simp [ImportFrame.covered_eq]
    exact ⟨_, _, hparts, rfl, f.gap, _, rfl,
      ⟨List.length_pos_iff.mpr f.gap_ne_nil, f.blank_of_mem_gap, by simp [isBlank]⟩, ['{'], _, rfl,
      ⟨'{', rfl, by simp⟩, s, _, rfl, ⟨List.length_pos_iff.mpr hne, hfree, by simp⟩, ['}'], _, rfl,
      ⟨'}', rfl, by simp⟩, f.space, _, rfl,
      ⟨List.length_pos_iff.mpr f.space_ne_nil, f.blank_of_mem_space, by simp [isBlank]⟩,
      "from".toList, [], rfl, rfl, rfl⟩

/-- An import is read where one stands. -/
theorem exists_namedImport_iff : (∃ n, namedImport b t = some (n + 1)) ↔
    ∃ (f : ImportFrame) (s rest : Text), Inside s ∧ t = f.covered s ++ rest := by
  constructor
  · rintro ⟨n, hn⟩
    obtain ⟨u, v, rfl, -, hread⟩ := exists_reads hn
    obtain ⟨f, s, hs, rfl⟩ := reads_namedImport_iff.mp hread
    exact ⟨f, s, v, hs, rfl⟩
  · rintro ⟨f, s, rest, hs, rfl⟩
    have hread : Reads (namedImport b) (f.covered s) rest :=
      reads_namedImport_iff.mpr ⟨f, s, hs, rfl⟩
    exact hread.exists_succ (by simp [ImportFrame.covered])

/-- **No import comes up because something else is written between two braces.** -/
theorem imports_of_inside {x y s s' : Text} (hs : Inside s) (hs' : '}' ∉ s')
    (h : ∃ n, namedImport b (x ++ '{' :: (s' ++ '}' :: y)) = some (n + 1)) :
    ∃ n, namedImport b (x ++ '{' :: (s ++ '}' :: y)) = some (n + 1) := by
  rw [exists_namedImport_iff] at h ⊢
  obtain ⟨f, i, rest, ⟨hne, hi⟩, e⟩ := h
  have hopening : '{' ∉ f.opening := f.not_mem_opening (by decide)
  have hclosing : '{' ∉ f.closing := f.not_mem_closing (by decide)
  rw [ImportFrame.covered, List.append_assoc, List.cons_append, List.append_assoc,
    List.cons_append] at e
  by_cases hx : '{' ∈ x
  · obtain ⟨x, x', rfl, hfront⟩ := List.eq_append_cons_of_mem hx
    rw [List.append_assoc, List.cons_append, append_cons_eq_iff hfront hopening] at e
    obtain ⟨rfl, e⟩ := e
    by_cases hx' : '}' ∈ x'
    · -- what is read ends in front of the braces
      obtain ⟨i', z, rfl, hi'⟩ := List.eq_append_cons_of_mem hx'
      rw [List.append_assoc, List.cons_append, append_cons_eq_iff hi' hi] at e
      obtain ⟨rfl, e⟩ := e
      obtain ⟨z, rfl⟩ := (prefix_append_cons_iff hclosing).mp ⟨_, e.symm⟩
      exact ⟨f, i', z ++ '{' :: (s ++ '}' :: y), ⟨hne, hi⟩, by simp [ImportFrame.covered]⟩
    · -- what is read holds the opening brace
      have hfree : '}' ∉ x' ++ '{' :: s' := by simp [hx', hs']
      rw [← List.cons_append, ← List.append_assoc, append_cons_eq_iff hfree hi] at e
      obtain ⟨rfl, rfl⟩ := e
      exact ⟨f, x' ++ '{' :: s, rest, ⟨by simp, by simp [hx', hs.2]⟩, by simp [ImportFrame.covered]⟩
  · rw [append_cons_eq_iff hx hopening] at e
    obtain ⟨rfl, e⟩ := e
    rw [append_cons_eq_iff hs' hi] at e
    obtain ⟨rfl, rfl⟩ := e
    exact ⟨f, s, rest, hs, by simp [ImportFrame.covered]⟩

/-! ## Cutting a line -/

/-- The line that was cut. -/
def ImportLine.text (l : ImportLine) : Text := l.head ++ (l.inside ++ l.tail)

theorem ImportFrame.text_line (f : ImportFrame) (s : Text) :
    (f.line s).text = f.before ++ (f.covered s ++ f.after) := by
  simp [ImportLine.text, line, covered]

theorem importLine?_of_firstMatch {line s : Text} {f : ImportFrame} (hs : Inside s)
    (h : firstMatch? namedImport line = some ⟨f.before, f.covered s, f.after⟩) :
    importLine? line = some (f.line s) := by
  have hopening : (f.covered s).takeWhile (· != '{') = f.opening :=
    takeWhile_append_stop (bne_of_not_mem (f.not_mem_opening (by decide))) (by simp)
  have hdrop : (f.covered s).drop (f.opening.length + 1) = s ++ '}' :: f.closing := by
    simp [ImportFrame.covered]
  have hfree := bne_of_not_mem hs.2
  rw [importLine?, h, Option.map_some]
  dsimp only
  rw [hopening, hdrop, takeWhile_append_stop hfree (by simp),
    dropWhile_append_stop hfree (by simp), ImportFrame.line, List.append_assoc, List.cons_append]

/-- **A line is cut at the braces of the first import in it.** -/
theorem importLine?_iff {line : Text} {l : ImportLine} :
    importLine? line = some l ↔ ∃ (f : ImportFrame) (s : Text), Inside s ∧ l = f.line s ∧
      line = l.text ∧ Unread namedImport f.before (f.covered s ++ f.after) := by
  constructor
  · intro h
    obtain ⟨m, hm, -⟩ := Option.map_eq_some_iff.mp h
    obtain ⟨-, hread⟩ := firstMatch?_reads hm
    obtain ⟨f, s, hs, hcovered⟩ := reads_namedImport_iff.mp hread
    have hunread := firstMatch?_unread hm
    have hline := firstMatch?_eq_some hm
    obtain ⟨before, covered, after⟩ := m
    obtain rfl : covered = f.covered s := hcovered
    let f' : ImportFrame := { f with before := before, after := after }
    have hl : importLine? line = some (f'.line s) := importLine?_of_firstMatch hs hm
    obtain rfl := Option.some.inj (h.symm.trans hl)
    refine ⟨f', s, hs, rfl, ?_, hunread⟩
    rw [f'.text_line, ← List.append_assoc]
    exact hline.symm
  · rintro ⟨f, s, hs, rfl, rfl, hunread⟩
    have hread : Reads (namedImport f.before.getLast?) (f.covered s) f.after :=
      reads_namedImport_iff.mpr ⟨f, s, hs, rfl⟩
    refine importLine?_of_firstMatch hs ?_
    rw [f.text_line]
    exact firstMatch?_of_unread (by simp [ImportFrame.covered]) hread hunread

/-- An import line with something else between its braces is cut at the same braces. -/
theorem importLine?_inside {line s : Text} {l : ImportLine} (h : importLine? line = some l)
    (hs : Inside s) : importLine? { l with inside := s }.text = some { l with inside := s } := by
  obtain ⟨f, s', hs', rfl, -, hunread⟩ := importLine?_iff.mp h
  refine importLine?_iff.mpr ⟨f, s, hs, rfl, rfl, fun a c b e n hn => ?_⟩
  have hcut : ∀ s, c :: (b ++ (f.covered s ++ f.after)) =
      (c :: (b ++ f.opening)) ++ '{' :: (s ++ '}' :: (f.closing ++ f.after)) := by
    simp [ImportFrame.covered]
  rw [hcut] at hn
  obtain ⟨n, hn⟩ := imports_of_inside hs' hs.2 ⟨n, hn⟩
  rw [← hcut] at hn
  exact hunread a c b e n hn

/-! ## What an import binds -/

theorem not_isBlank_of_mem_words {w : Text} (h : w ∈ words t) : w ≠ [] ∧ ∀ c ∈ w, ¬ isBlank c := by
  rw [words, List.mem_filter] at h
  refine ⟨by simpa using h.2, ?_⟩
  have hpieces : ∀ {t w : Text}, w ∈ t.splitOnP isBlank → ∀ c ∈ w, ¬ isBlank c := by
    intro t
    induction t with
    | nil => simp
    | cons d t ih =>
      intro w hw
      obtain ⟨x, xs, hx⟩ := List.exists_cons_of_ne_nil (List.splitOnP_ne_nil isBlank t)
      rw [List.splitOnP_cons_eq_if_modifyHead] at hw
      split at hw
      · obtain rfl | hw := List.mem_cons.mp hw
        · simp
        · exact ih hw
      · next hd =>
        rw [hx, List.modifyHead_cons] at hw
        obtain rfl | hw := List.mem_cons.mp hw
        · exact List.forall_mem_cons.mpr ⟨hd, ih (by simp [hx])⟩
        · exact ih (by simp [hx, hw])
  exact hpieces h.1

/-- The name that a specifier binds is a word. -/
theorem boundName_mem_words {s : Text} (htrim : Trimmed s) (nonempty : s ≠ []) :
    boundName s ∈ words s := by
  obtain ⟨c, s, rfl⟩ := List.exists_cons_of_ne_nil nonempty
  have hc : ¬ isBlank c := by simpa [Trimmed] using htrim.1
  have hwords : words (c :: s) ≠ [] := by
    obtain ⟨x, xs, hx⟩ := List.exists_cons_of_ne_nil (List.splitOnP_ne_nil isBlank s)
    rw [words, List.splitOnP_cons_eq_if_modifyHead, if_neg hc, hx, List.modifyHead_cons]
    simp
  rw [boundName, List.getLastD_eq_getLast?, List.getLast?_eq_some_getLast hwords]
  exact List.getLast_mem hwords

theorem boundName_of_mem_importSpecifiers {inside s : Text} (h : s ∈ importSpecifiers inside) :
    boundName s ≠ [] ∧ ∀ c ∈ boundName s, ¬ isBlank c := by
  obtain ⟨htrim, nonempty, -⟩ := mem_importSpecifiers h
  exact not_isBlank_of_mem_words (boundName_mem_words htrim nonempty)

theorem newline_outside_boundName {inside s : Text} (h : s ∈ importSpecifiers inside) :
    Outside (boundName s) ['\n'] :=
  .of_isBlank (boundName_of_mem_importSpecifiers h).2 (List.forall_mem_singleton.mpr (by decide))

/-! ## What a line with an import mentions -/

theorem mentions_inside_iff {name inside : Text} (h : IsName name) :
    mentions name inside ↔ ∃ s ∈ importSpecifiers inside, mentions name s := by
  have hcomma : Outside name [','] := h.outside_singleton (by decide)
  rw [mentions_iff_splitOn h.1 hcomma]
  constructor
  · rintro ⟨w, hw, hmentions⟩
    rw [← mentions_trim_iff h.1 h.not_isBlank] at hmentions
    refine ⟨trim w, List.mem_filter.mpr ⟨List.mem_map.mpr ⟨w, hw, rfl⟩, ?_⟩, hmentions⟩
    have hne : trim w ≠ [] := by
      intro e
      rw [e, mentions_nil_iff] at hmentions
      exact h.1 hmentions
    simpa using hne
  · rintro ⟨s, hs, hmentions⟩
    obtain ⟨w, hw, rfl⟩ := List.mem_map.mp (List.mem_filter.mp hs).1
    exact ⟨w, hw, (mentions_trim_iff h.1 h.not_isBlank).mp hmentions⟩

/-- **A line with an import mentions a name in front of the braces, behind them, or in one of the
specifiers.** -/
theorem mentions_text_iff {name line : Text} {l : ImportLine} (h : IsName name)
    (hl : importLine? line = some l) : mentions name l.text ↔
      mentions name l.head ∨ mentions name l.tail ∨
        ∃ s ∈ importSpecifiers l.inside, mentions name s := by
  obtain ⟨f, s, -, rfl, -, -⟩ := importLine?_iff.mp hl
  have hbrace : ¬ isNameChar '{' := by decide
  have hbrace' : ¬ isNameChar '}' := by decide
  have hmem : ∀ {c : Char}, ¬ isNameChar c → c ∉ name := fun hc hmem => hc (h.2 _ hmem)
  have htext : (f.line s).text =
      (f.before ++ f.opening) ++ '{' :: (s ++ '}' :: (f.closing ++ f.after)) := by
    simp [ImportLine.text, ImportFrame.line]
  have hhead : mentions name (f.line s).head ↔ mentions name (f.before ++ f.opening) := by
    rw [ImportFrame.line, ← List.append_assoc]
    exact mentions_append_right_iff h.1 (h.outside_singleton hbrace)
  have htail : mentions name (f.line s).tail ↔ mentions name (f.closing ++ f.after) :=
    mentions_append_left_iff (w := ['}']) h.1 (h.outside_singleton hbrace')
  rw [htext, mentions_append_cons_iff (hmem hbrace) hbrace,
    mentions_append_cons_iff (hmem hbrace') hbrace', hhead, htail, ← mentions_inside_iff h,
    or_comm (a := mentions name s)]
  rfl

end Idiom

namespace Fix

open Idiom

variable {line : Text} {l : ImportLine} {ss : List Text}

/-! ## Imports with some of their specifiers -/

/-- What is written between the braces of an import with these specifiers. -/
def writtenInside (ss : List Text) : Text := ' ' :: (List.intercalate ", ".toList ss ++ [' '])

theorem text_writtenInside (l : ImportLine) (ss : List Text) :
    { l with inside := writtenInside ss }.text = importOf l ss := by
  simp [ImportLine.text, writtenInside, importOf]

theorem importSpecifiers_writtenInside (hss : ∀ s ∈ ss, s ∈ importSpecifiers l.inside)
    (nonempty : ss ≠ []) : importSpecifiers (writtenInside ss) = ss :=
  importSpecifiers_intercalate (fun s hs => (mem_importSpecifiers (hss s hs)).imp_right
    fun h => ⟨h.1, h.2.1⟩) nonempty

variable (hl : importLine? line = some l) (hss : ∀ s ∈ ss, s ∈ importSpecifiers l.inside)

include hl hss

/-- **An import that is written with some of its specifiers is read back**, and the line is cut at
the same braces. -/
theorem importLine?_importOf :
    importLine? (importOf l ss) = some { l with inside := writtenInside ss } := by
  rw [← text_writtenInside]
  refine importLine?_inside hl ⟨List.cons_ne_nil _ _, fun h => ?_⟩
  obtain ⟨f, s, hs, rfl, -, -⟩ := importLine?_iff.mp hl
  rw [writtenInside, List.mem_cons, List.mem_append] at h
  obtain h | h | h := h
  · exact absurd h (by decide)
  · obtain h | ⟨x, hx, h⟩ := mem_of_mem_intercalate h
    · exact absurd h (by decide)
    · exact hs.2 ((mem_importSpecifiers (hss x hx)).2.2.2 _ h)
  · exact absurd h (by decide)

/-- What an import mentions that is written with some of its specifiers, it mentioned before. -/
theorem mentions_of_mentions_importOf (nonempty : ss ≠ []) {name : Text} (h : IsName name)
    (hmentions : mentions name (importOf l ss)) : mentions name line := by
  obtain ⟨-, -, -, -, rfl, -⟩ := importLine?_iff.mp hl
  have hnew := importLine?_importOf hl hss
  rw [← text_writtenInside, mentions_text_iff h hnew,
    importSpecifiers_writtenInside hss nonempty] at hmentions
  rw [mentions_text_iff h hl]
  exact hmentions.imp_right (.imp_right fun ⟨s, hs, hm⟩ => ⟨s, hss s hs, hm⟩)

end Fix

end Mend

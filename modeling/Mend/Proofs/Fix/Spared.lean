import Mend.Proofs.Fix.Pruning

/-!
# Lines that are nothing but an import

A pruning takes away a line as a whole, and asks only the other lines what they mention. So it
spares whatever is not an import as long as an import has its line to itself: what such a line
mentions outside the braces is `import`, `from` and what its module path mentions.

* `isImportStatement`: a line that is one import of names, up to white space and a semicolon.
* `importLine?_importStatement`: such a line is cut at its only braces.
* `mentions_head_iff`, `mentions_tail_iff`: what it mentions outside the braces.
* `pruneImports_spares`: if imports stand alone, whole lines that are taken away are imports, and
  the names that are dropped are not used on their own line.
-/

namespace Mend

open Text Reader

namespace Idiom

/-! ## Statements -/

/-- Reads a text between quotes of this kind. -/
def quotedBy (quote : Char) : Reader := .seq [.one (· == quote), .through quote]

/-- Reads an import of names with white space around it and perhaps a semicolon behind it, up to the
end of the text. -/
def importStatement : Reader :=
  .seq [
    .blanks, namedImport none, .blanks, .oneOf [quotedBy '\'', quotedBy '"'], .blanks,
    .optional (.one (· == ';')), .blanks, .ahead List.isEmpty]

/-- Whether a line is one import of names and nothing else. -/
def isImportStatement (line : Text) : Bool := (importStatement line).isSome

/-- Whether a character opens or closes the path of a module. -/
def isPathQuote (c : Char) : Bool := c == '\'' || c == '"'

/-- The path of the module that an import names behind its braces. -/
def modulePath (l : ImportLine) : Text :=
  match l.tail.dropWhile (!isPathQuote ·) with
  | [] => []
  | quote :: rest => rest.takeWhile (· != quote)

/-- An import of names that has its line to itself. -/
structure ImportStatement extends ImportFrame where
  inside : Text
  /-- The white space in front of the module path. -/
  margin : Text
  quote : Char
  path : Text
  /-- What ends the line: white space and perhaps a semicolon. -/
  ending : Text
  nonempty : Inside inside
  blank_of_mem_before : ∀ c ∈ before, isBlank c
  after_eq : after = margin ++ quote :: (path ++ quote :: ending)
  blank_of_mem_margin : ∀ c ∈ margin, isBlank c
  isPathQuote_quote : isPathQuote quote
  quote_not_mem : quote ∉ path
  ends_of_mem_ending : ∀ c ∈ ending, isBlank c ∨ c = ';'

/-- The line with its braces. -/
def ImportStatement.cut (s : ImportStatement) : ImportLine := s.line s.inside

instance {quote : Char} : Within (quotedBy quote) :=
  inferInstanceAs (Within (.seq [.one (· == quote), .through quote]))

theorem reads_quotedBy {quote : Char} {u v : Text} : Reads (quotedBy quote) u v ↔
    ∃ path, u = quote :: (path ++ [quote]) ∧ quote ∉ path := by
  simp only [quotedBy, reads_seq_cons, reads_one, reads_through, reads_seq_nil]
  constructor
  · rintro ⟨_, _, rfl, ⟨q, rfl, hq⟩, _, _, rfl, ⟨path, rfl, hpath⟩, rfl⟩
    obtain rfl : q = quote := by simpa using hq
    exact ⟨path, by simp, hpath⟩
  · rintro ⟨path, rfl, hpath⟩
    exact ⟨[quote], _, rfl, ⟨quote, rfl, by simp⟩, _, [], (List.append_nil _).symm,
      ⟨path, rfl, hpath⟩, rfl⟩

theorem reads_path {u v : Text} (h : Reads (.oneOf [quotedBy '\'', quotedBy '"']) u v) :
    ∃ quote path, u = quote :: (path ++ [quote]) ∧ isPathQuote quote ∧ quote ∉ path := by
  simp only [reads_oneOf_cons, reads_oneOf_nil, and_false, or_false, reads_quotedBy] at h
  obtain ⟨path, rfl, hpath⟩ | ⟨-, path, rfl, hpath⟩ := h
  · exact ⟨_, path, rfl, rfl, hpath⟩
  · exact ⟨_, path, rfl, rfl, hpath⟩

theorem exists_importStatement {line : Text} (h : isImportStatement line) :
    ∃ s : ImportStatement, line = s.cut.text := by
  obtain ⟨n, hn⟩ := Option.isSome_iff_exists.mp h
  rw [importStatement] at hn
  obtain ⟨u, v, rfl, -, hread⟩ := exists_reads hn
  simp only [reads_seq_cons, reads_blanks, reads_namedImport_iff, reads_one, reads_optional,
    reads_ahead, reads_seq_nil] at hread
  obtain ⟨before, _, rfl, ⟨hbefore, -⟩, _, _, rfl, ⟨f, inside, hinside, rfl⟩, margin, _, rfl,
    ⟨hmargin, -⟩, _, _, rfl, hquoted, room, _, rfl, ⟨hroom, -⟩, sign, _, rfl, hsign, room', _, rfl,
    ⟨hroom', -⟩, _, _, rfl, ⟨rfl, hend⟩, rfl⟩ := hread
  obtain ⟨quote, path, rfl, hquote, hpath⟩ := reads_path hquoted
  obtain rfl : v = [] := List.isEmpty_iff.mp hend
  have hsign : ∀ c ∈ sign, c = ';' := by
    obtain ⟨c, rfl, hc⟩ | ⟨-, rfl⟩ := hsign
    · simpa using hc
    · simp
  refine ⟨{ f with
    before, inside, margin, quote, path
    after := margin ++ quote :: (path ++ quote :: (room ++ (sign ++ room')))
    ending := room ++ (sign ++ room')
    nonempty := hinside
    blank_of_mem_before := hbefore
    after_eq := rfl
    blank_of_mem_margin := hmargin
    isPathQuote_quote := hquote
    quote_not_mem := hpath
    ends_of_mem_ending := ?_ }, ?_⟩
  · intro c hc
    obtain hc | hc | hc := by simpa only [List.mem_append] using hc
    · exact .inl (hroom c hc)
    · exact .inr (hsign c hc)
    · exact .inl (hroom' c hc)
  · rw [ImportStatement.cut, ImportFrame.text_line]
    simp [ImportFrame.covered_eq]

variable (s : ImportStatement)

/-- **An import that stands alone is cut at its only braces.** -/
theorem importLine?_importStatement : importLine? s.cut.text = some s.cut := by
  refine importLine?_iff.mpr ⟨s.toImportFrame, s.inside, s.nonempty, rfl, rfl, ?_⟩
  -- no import starts with white space
  intro a c b e n hn
  obtain ⟨f, i, rest, -, hcovered⟩ := exists_namedImport_iff.mp ⟨n, hn⟩
  have hc : isBlank c := s.blank_of_mem_before c (by rw [e]; simp)
  obtain rfl : c = 'i' := (List.cons.inj hcovered).1
  exact absurd hc (by decide)

theorem head_cut : s.cut.head = s.before ++ ("import".toList ++ (s.gap ++ ['{'])) := by
  unfold ImportStatement.cut ImportFrame.line ImportFrame.opening
  simp

theorem tail_cut : s.cut.tail = ('}' :: s.space) ++
    ("from".toList ++ ((s.margin ++ [s.quote]) ++ (s.path ++ s.quote :: s.ending))) := by
  unfold ImportStatement.cut ImportFrame.line ImportFrame.closing
  simp [s.after_eq]

theorem not_isPathQuote_of_isBlank {c : Char} (h : isBlank c) : (!isPathQuote c) = true := by
  rw [Bool.not_eq_true', ← Bool.not_eq_true, isPathQuote, Bool.or_eq_true, beq_iff_eq, beq_iff_eq]
  rintro (rfl | rfl) <;> exact absurd h (by decide)

theorem modulePath_cut : modulePath s.cut = s.path := by
  have hfrom : ∀ c ∈ "from".toList, (!isPathQuote c) = true := List.all_eq_true.mp (by decide)
  have hfront : ∀ c ∈ ('}' :: s.space) ++ ("from".toList ++ s.margin), (!isPathQuote c) = true := by
    intro c hc
    obtain (rfl | hc) | hc | hc := by simpa only [List.mem_append, List.mem_cons] using hc
    · decide
    · exact not_isPathQuote_of_isBlank (s.blank_of_mem_space c hc)
    · exact hfrom c hc
    · exact not_isPathQuote_of_isBlank (s.blank_of_mem_margin c hc)
  have htail : s.cut.tail = (('}' :: s.space) ++ ("from".toList ++ s.margin)) ++
      (s.quote :: (s.path ++ s.quote :: s.ending)) := by
    rw [tail_cut]
    simp
  rw [modulePath, htail, dropWhile_append_stop hfront (by simp [s.isPathQuote_quote])]
  exact takeWhile_append_stop (bne_of_not_mem s.quote_not_mem) (by simp)

/-! ## What stands around the braces -/

variable {name : Text} (h : IsName name)

include h

theorem mentions_head_iff : mentions name s.cut.head ↔ name = "import".toList := by
  have hbefore : Outside name s.before := .of_isBlank h.not_isBlank s.blank_of_mem_before
  have hgap : Outside name (s.gap ++ ['{']) := by
    refine h.outside fun c hc => ?_
    obtain hc | hc := List.mem_append.mp hc
    · exact not_isNameChar_of_isBlank (s.blank_of_mem_gap c hc)
    · obtain rfl := List.mem_singleton.mp hc
      decide
  rw [head_cut, mentions_append_left_iff h.1 hbefore, mentions_append_right_iff h.1 hgap]
  exact mentions_isName_iff (.of_all (by decide) (by decide))

theorem mentions_tail_iff :
    mentions name s.cut.tail ↔ name = "from".toList ∨ mentions name s.path := by
  have hquote : ¬ isNameChar s.quote := by
    have hquote := s.isPathQuote_quote
    rw [isPathQuote, Bool.or_eq_true, beq_iff_eq, beq_iff_eq] at hquote
    obtain e | e := hquote <;> rw [e] <;> decide
  have hspace : Outside name ('}' :: s.space) := by
    refine h.outside (List.forall_mem_cons.mpr ⟨by decide, fun c hc => ?_⟩)
    exact not_isNameChar_of_isBlank (s.blank_of_mem_space c hc)
  have hopening : Outside name (s.margin ++ [s.quote]) := by
    refine h.outside fun c hc => ?_
    obtain hc | hc := List.mem_append.mp hc
    · exact not_isNameChar_of_isBlank (s.blank_of_mem_margin c hc)
    · exact List.mem_singleton.mp hc ▸ hquote
  have hending : Outside name (s.quote :: s.ending) := by
    refine h.outside (List.forall_mem_cons.mpr ⟨hquote, fun c hc => ?_⟩)
    obtain hc | rfl := s.ends_of_mem_ending c hc
    · exact not_isNameChar_of_isBlank hc
    · decide
  rw [tail_cut, mentions_append_left_iff h.1 hspace,
    mentions_append_append_iff h.1 hopening (by simp), mentions_append_right_iff h.1 hending,
    mentions_isName_iff (w := "from".toList) (.of_all (by decide) (by decide))]

end Idiom

namespace Fix

open Idiom

/-- A line that holds nothing but its import, if it has one, and whose names are identifiers. -/
def StandsAlone (line : Text) : Prop :=
  ∀ l, importLine? line = some l → isImportStatement line ∧
    ∀ s ∈ importSpecifiers l.inside, ∀ c ∈ boundName s, isNameChar c

/-- What a line that stands alone mentions outside its braces. -/
theorem mentions_outside_of_standsAlone {line name : Text} {l : ImportLine}
    (hl : importLine? line = some l) (alone : StandsAlone line) (h : IsName name)
    (hmentions : mentions name l.head ∨ mentions name l.tail) :
    name = "import".toList ∨ name = "from".toList ∨ mentions name (modulePath l) := by
  obtain ⟨s, rfl⟩ := exists_importStatement (alone l hl).1
  obtain rfl := Option.some.inj ((importLine?_importStatement s).symm.trans hl)
  rwa [mentions_head_iff s h, mentions_tail_iff s h, ← modulePath_cut] at hmentions

variable {t : Text} (i : Issue)

/-- **A pruning spares all but imports that stand alone and their unused names**: a line without
imports stays as it is, one with an import keeps what is around its braces or is taken away as a
statement of its own, and the names that it binds, dropped or not, are mentioned on the line outside
the braces at most as `import`, as `from` or in the path of the module. -/
theorem pruneImports_spares (alone : ∀ line ∈ lines t, StandsAlone line) :
    (rowsOf t).map Row.line = lines t ∧
    (pruneImports t i).fixed = unlines (Row.leftovers (rowsOf t)) ∧
    (∀ row ∈ rowsOf t, row.left = none → isImportStatement row.line) ∧
    ∀ above row below, rowsOf t = above ++ row :: below →
      (importLine? row.line = none → row.left = some row.line) ∧
      ∀ l, importLine? row.line = some l →
        let needed := neededSpecifiers l (Row.leftovers above ++ below.map Row.line)
        Outcome row l needed ∧
        ∀ s ∈ importSpecifiers l.inside,
          mentions (boundName s) l.head ∨ mentions (boundName s) l.tail →
          boundName s = "import".toList ∨ boundName s = "from".toList ∨
            mentions (boundName s) (modulePath l) := by
  have hmem : ∀ row ∈ rowsOf t, row.line ∈ lines t := fun row hrow =>
    map_line_rowsOf t ▸ List.mem_map.mpr ⟨row, hrow, rfl⟩
  have hstays : ∀ {above row below}, rowsOf t = above ++ row :: below →
      importLine? row.line = none → row.left = some row.line := fun hrows hnone =>
    (left_of_rowsOf t hrows).trans (leftOf_of_none hnone)
  refine ⟨map_line_rowsOf t, (pruneImports_rows t i).1, ?removed, fun above row below hrows =>
    ⟨hstays hrows, fun l hl => ⟨outcome_of_leftOf row hl (left_of_rowsOf t hrows), ?names⟩⟩⟩
  case removed =>
    intro row hrow gone
    obtain ⟨above, below, hrows⟩ := List.append_of_mem hrow
    cases hl : importLine? row.line with
    | none =>
      rw [hstays hrows hl] at gone
      cases gone
    | some l => exact (alone row.line (hmem row hrow) l hl).1
  case names =>
    intro s hs hmentions
    have hrow : row ∈ rowsOf t := by simp [hrows]
    have halone := alone row.line (hmem row hrow)
    have hname : IsName (boundName s) :=
      ⟨(boundName_of_mem_importSpecifiers hs).1, (halone l hl).2 s hs⟩
    exact mentions_outside_of_standsAlone hl halone hname hmentions

/-- An import that nothing uses is taken away, though the path of its module is like its name. -/
theorem pruneImports_spares_sample :
    let t := "import \x7b a \x7d from './a';\nrun()".toList
    let row : Row := ⟨"import \x7b a \x7d from './a';".toList, none⟩
    let below : List Row := [⟨"run()".toList, some "run()".toList⟩]
    let l : ImportLine := ⟨"import \x7b".toList, " a ".toList, "\x7d from './a';".toList⟩
    (∀ line ∈ lines t, StandsAlone line) ∧ rowsOf t = row :: below ∧
    isImportStatement row.line ∧ importLine? row.line = some l ∧
    mentions "a".toList l.tail ∧ mentions "a".toList (modulePath l) := by
  intro t row below l
  have hrows : rowsOf t = row :: below := rfl
  have hl : importLine? row.line = some l := rfl
  have hspecifiers : importSpecifiers l.inside = ["a".toList] := rfl
  have alone : ∀ line ∈ lines t, StandsAlone line := by
    have hlines : lines t = [row.line, "run()".toList] := rfl
    rw [hlines, List.forall_mem_cons, List.forall_mem_singleton]
    refine ⟨fun l' h => ?_, fun l' h => by cases h⟩
    obtain rfl := Option.some.inj (hl.symm.trans h)
    rw [hspecifiers, List.forall_mem_singleton]
    exact ⟨by cbv, List.all_eq_true.mp rfl⟩
  have htail : mentions "a".toList l.tail := rfl
  obtain ⟨-, -, hremoved, hnames⟩ :=
    pruneImports_spares { rule := "unused_imports", description := "" } alone
  have hpath := ((hnames [] row below hrows).2 l hl).2 "a".toList (by simp [hspecifiers])
    (.inr htail)
  refine ⟨alone, hrows, hremoved row (by simp [hrows]) rfl, hl, htail, ?_⟩
  exact (hpath.resolve_left (by decide)).resolve_left (by decide)

/-- **What shares a line with an import that nothing else uses is taken away with it**, even if it
uses the import. -/
theorem pruneImports_takes_code :
    let issue : Issue := { rule := "unused_imports", description := "" }
    let t := "import \x7b a \x7d from 'm'; a();".toList
    let l : ImportLine := ⟨"import \x7b".toList, " a ".toList, "\x7d from 'm'; a();".toList⟩
    (lines t = [t] ∧ importLine? t = some l ∧ ¬ isImportStatement t) ∧
    importSpecifiers l.inside = ["a".toList] ∧ mentions "a".toList l.tail ∧
    (pruneImports t issue).success ∧ (pruneImports t issue).fixed = [] := by
  intro issue t l
  exact ⟨⟨rfl, rfl, by decide +kernel⟩, rfl, rfl, rfl, rfl⟩

end Fix

end Mend

import Mend.Proofs.Fix.Lookups
import Mend.Proofs.Rule
import Mend.Proofs.Text.Utf8

/-!
# Secrets that are flagged and secrets that are moved

The rule looks for a literal behind certain words, in any case, and the fix for one behind any word.
The last letters of such a word are a word of their own or part of a longer one, so that the fix
finds what the rule has found, unless the literal has characters that only pass for letters if case
is ignored.

* `hardcodedSecret_parts`: what the rule reads.
* `quotedValue`, `Flagged`: the literals that the rule reads in a text.
* `Flagged.hits_secretAssignment`: the fix finds a flagged literal of ASCII characters.
* `externalizeSecrets_removes_flagged`: flagged secrets of ASCII characters are moved, and none is
  left.
-/

namespace Mend

open Text Reader Idiom
open Utf8 (IsAscii)

/-! ## Letters in any case -/

section Case

variable {b : Option Char} {u v w : Text} {l c : Char}

/-- The characters beyond ASCII that pass for letters if case is ignored. -/
def foldingChars : Text := "\u212a\u017f\u0130\u0131".toList

theorem le_toNat_of_mem_foldingChars (hc : c ∈ foldingChars) : 128 ≤ c.toNat := by
  have h : foldingChars.all fun d => 128 ≤ d.toNat := by decide
  simpa using List.all_eq_true.mp h c hc

/-- What passes for a letter is the letter, its upper case or beyond ASCII. -/
theorem sameLetter_cases (h : sameLetter l c) : c = l ∨ c = l.toUpper ∨ c ∈ foldingChars := by
  simp only [sameLetter, Bool.or_eq_true, Bool.and_eq_true, beq_iff_eq] at h
  obtain (((rfl | ⟨-, rfl⟩) | ⟨-, rfl⟩) | ⟨-, rfl⟩) | ⟨-, rfl | rfl⟩ := h
  · exact .inl rfl
  · exact .inr (.inl rfl)
  all_goals exact .inr (.inr (by decide))

/-- A letter is part of a word in any case. -/
theorem isWord_of_sameLetter (hl : isWord l ∧ isWord l.toUpper) (h : sameLetter l c) :
    isWord c := by
  have hbeyond : foldingChars.all isWord := by decide +kernel
  obtain rfl | rfl | h := sameLetter_cases h
  · exact hl.1
  · exact hl.2
  · exact List.all_eq_true.mp hbeyond c h

/-- A word that is read in any case is a word. -/
theorem word_of_inAnyCase (hne : w ≠ []) (hw : w.all fun l => isWord l && isWord l.toUpper)
    (h : Reads (inAnyCase w) u v) : u ≠ [] ∧ ∀ c ∈ u, isWord c := by
  obtain ⟨hlen, hsame⟩ := reads_inAnyCase.mp h
  constructor
  · rintro rfl
    exact hne (List.length_eq_zero_iff.mp hlen.symm)
  · intro c hc
    obtain ⟨k, hk, rfl⟩ := List.getElem_of_mem hc
    have hkw : k < w.length := hlen ▸ hk
    have hmem : (w[k], u[k]) ∈ w.zip u := List.mem_iff_getElem.mpr
      ⟨k, by rw [List.length_zip]; omega, List.getElem_zip⟩
    have hletter := List.all_eq_true.mp hw _ (List.getElem_mem hkw)
    rw [Bool.and_eq_true] at hletter
    exact isWord_of_sameLetter hletter (hsame _ hmem)

end Case

/-! ## What the rule reads -/

namespace Idiom

variable {a u v : Text} {b : Option Char} {c : Char}

instance : Within secretKeyword :=
  inferInstanceAs (Within (.oneOf [.seq [.inAnyCase "private".toList, .optional (.one _),
    .inAnyCase "key".toList], .inAnyCase "secret".toList, .inAnyCase "password".toList,
    .inAnyCase "token".toList]))

instance : Within (hardcodedSecret b) :=
  inferInstanceAs (Within (.seq [secretKeyword, assignedLiteral isSecretCharAnyCase]))

/-- A character that passes for one of an encoded key is one or is beyond ASCII. -/
theorem isSecretChar_or_folding (h : isSecretCharAnyCase c) : isSecretChar c ∨ c ∈ foldingChars := by
  have hletter : ∀ l ∈ "ksi".toList, sameLetter l c → isSecretChar c ∨ c ∈ foldingChars := by
    intro l hl h
    have hkeys : "ksi".toList.all fun l => isSecretChar l && isSecretChar l.toUpper := by decide
    have hl := List.all_eq_true.mp hkeys l hl
    rw [Bool.and_eq_true] at hl
    obtain rfl | rfl | h := sameLetter_cases h
    · exact .inl hl.1
    · exact .inl hl.2
    · exact .inr h
  rw [isSecretCharAnyCase, Bool.or_eq_true, Bool.or_eq_true, Bool.or_eq_true] at h
  obtain ((h | h) | h) | h := h
  · exact .inl h
  · exact hletter 'k' (by decide) h
  · exact hletter 's' (by decide) h
  · exact hletter 'i' (by decide) h

/-- The characters of encoded keys are ASCII characters. -/
theorem toNat_lt_of_isSecretChar (h : isSecretChar c) : c.toNat < 128 := by
  rw [isSecretChar, Bool.or_eq_true, Bool.or_eq_true, Bool.or_eq_true, beq_iff_eq, beq_iff_eq,
    beq_iff_eq] at h
  obtain ((h | rfl) | rfl) | rfl := h
  · have hval : c.val < 128 := by
      unfold Char.isAlphanum Char.isAlpha Char.isUpper Char.isLower Char.isDigit at h
      grind
    exact UInt32.lt_iff_toNat_lt.mp hval
  all_goals decide

theorem isQuote_not_isSecretChar : ∀ c, isQuote c → ¬ isSecretCharAnyCase c := by
  intro c h
  obtain rfl | rfl | rfl := isQuote_cases h <;> decide

/-- A word that names a secret ends in a word, and no quote stands in it. -/
theorem secretKeyword_parts (h : Reads secretKeyword u v) :
    ∃ front word, u = front ++ word ∧ word ≠ [] ∧ (∀ c ∈ word, isWord c) ∧
      ∀ c ∈ u, ¬ isQuote c := by
  have hword : ∀ {w u v : Text}, w ∈ ["private".toList, "key".toList, "secret".toList,
      "password".toList, "token".toList] → Reads (inAnyCase w) u v →
      u ≠ [] ∧ ∀ c ∈ u, isWord c := by
    intro w u v hw
    have hwords : ["private".toList, "key".toList, "secret".toList, "password".toList,
        "token".toList].all fun w => !w.isEmpty && w.all fun l => isWord l && isWord l.toUpper := by
      decide
    have hw := List.all_eq_true.mp hwords w hw
    rw [Bool.and_eq_true, Bool.not_eq_true', List.isEmpty_eq_false_iff] at hw
    exact word_of_inAnyCase hw.1 hw.2
  have hquote : ∀ {c}, isWord c → ¬ isQuote c := fun h hq => not_isWord_of_isQuote hq h
  simp only [secretKeyword, reads_oneOf_cons, reads_oneOf_nil, reads_seq_cons, reads_seq_nil,
    and_false, or_false] at h
  obtain ⟨front, _, rfl, hfront, gap, _, rfl, hgap, key, _, rfl, hkey, rfl⟩ | ⟨-, h⟩ := h
  · obtain ⟨hne, hkey⟩ := hword (by simp) hkey
    refine ⟨front ++ gap, key, by simp, hne, hkey, fun c hc => ?_⟩
    rw [List.append_nil, List.mem_append, List.mem_append] at hc
    obtain hc | hc | hc := hc
    · exact hquote ((hword (by simp) hfront).2 c hc)
    · rw [reads_optional, reads_one] at hgap
      obtain ⟨d, rfl, hd⟩ | ⟨-, rfl⟩ := hgap
      · obtain rfl := List.mem_singleton.mp hc
        rw [Bool.or_eq_true, beq_iff_eq, beq_iff_eq] at hd
        obtain rfl | rfl := hd <;> decide
      · cases hc
    · exact hquote (hkey c hc)
  · obtain ⟨hne, hu⟩ : u ≠ [] ∧ ∀ c ∈ u, isWord c := by
      obtain h | ⟨-, h | ⟨-, h⟩⟩ := h
      · exact hword (by simp) h
      · exact hword (by simp) h
      · exact hword (by simp) h
    exact ⟨[], u, rfl, hne, hu, fun c hc => hquote (hu c hc)⟩

/-- What the rule reads ends in an assignment of a secret, the first quote of which opens the
literal. -/
theorem hardcodedSecret_parts (h : Reads (hardcodedSecret b) u v) :
    ∃ (front : Text) (s : Secret), u = front ++ s.text ∧ s.name ≠ [] ∧
      (∀ c ∈ front ++ s.name, ¬ isQuote c) ∧ secretLength ≤ s.secret.length ∧
      (∀ c ∈ s.secret, isSecretCharAnyCase c) ∧ isQuote s.closing := by
  simp only [hardcodedSecret, assignedLiteral, reads_anywhere, reads_seq_cons, reads_atLeast,
    reads_blanks, reads_one, reads_seq_nil] at h
  obtain ⟨keyword, _, rfl, hkeyword, _, _, rfl, ⟨gap, _, rfl, ⟨hgap, -⟩, _, _, rfl,
    ⟨sign, rfl, hsign⟩, space, _, rfl, ⟨hspace, -⟩, _, _, rfl, ⟨opening, rfl, hopening⟩, secret, _,
    rfl, ⟨hlen, hsecret, -⟩, _, _, rfl, ⟨closing, rfl, hclosing⟩, rfl⟩, rfl⟩ := h
  obtain ⟨front, word, rfl, hne, hword, hquote⟩ := secretKeyword_parts hkeyword
  have hends : ¬ (gap ++ [sign]).head?.any isWord := by
    cases gap with
    | nil =>
      rw [isAssignment, Bool.or_eq_true, beq_iff_eq, beq_iff_eq] at hsign
      obtain rfl | rfl := hsign <;> decide
    | cons c gap => simpa using not_isWord_of_isBlank (hgap c List.mem_cons_self)
  exact ⟨front, ⟨word, gap, sign, space, opening, secret, closing, hword, hends, hgap, hsign, hspace,
    hopening⟩, by simp [Secret.text, Secret.assigned], hne, hquote, hlen, hsecret, hclosing⟩

/-- What stands between the first two quotes of a text. -/
def quotedValue (t : Text) : Text :=
  ((t.dropWhile fun c => !isQuote c).drop 1).takeWhile fun c => !isQuote c

/-- The rule reads a literal with this value somewhere in a text. -/
def Flagged (t value : Text) : Prop :=
  ∃ a u v, t = a ++ (u ++ v) ∧ Reads (hardcodedSecret a.getLast?) u v ∧ quotedValue u = value

namespace Secret

variable (s : Secret)

theorem quotedValue_text {front : Text} (hfront : ∀ c ∈ front ++ s.name, ¬ isQuote c)
    (hsecret : ∀ c ∈ s.secret, ¬ isQuote c) (hclosing : isQuote s.closing) :
    quotedValue (front ++ s.text) = s.secret := by
  have hsign : ¬ isQuote s.sign := by
    obtain h | h := s.sign_eq <;> rw [h] <;> decide
  have hblank : ∀ {c}, isBlank c → ¬ isQuote c := fun h hq => not_isBlank_of_isQuote hq h
  have hcut : front ++ s.text = (front ++ s.name ++ s.gap ++ s.sign :: s.space) ++
      s.opening :: (s.secret ++ [s.closing]) := by
    simp [text, assigned]
  have hquoteless : ∀ c ∈ front ++ s.name ++ s.gap ++ s.sign :: s.space, (!isQuote c) = true := by
    intro c hc
    rw [List.mem_append, List.mem_append, List.mem_cons] at hc
    rw [Bool.not_eq_true', ← Bool.not_eq_true]
    obtain (hc | hc) | rfl | hc := hc
    · exact hfront c hc
    · exact hblank (s.blank_of_mem_gap c hc)
    · exact hsign
    · exact hblank (s.blank_of_mem_space c hc)
  rw [quotedValue, hcut, dropWhile_append_stop hquoteless (by simp [s.opening_quotes]),
    List.drop_one, List.tail_cons]
  exact takeWhile_append_stop (fun c hc => by simpa using hsecret c hc) (by simp [hclosing])

/-- An assignment of a secret is read where no word goes on. -/
theorem reads (hname : s.name ≠ []) (hlen : secretLength ≤ s.secret.length)
    (hsecret : ∀ c ∈ s.secret, isSecretChar c) (hclosing : isQuote s.closing)
    (hb : ¬ b.any isWord) (v : Text) : Reads (secretAssignment b) s.text v := by
  have hstop : ¬ isSecretChar s.closing := by
    obtain h | h | h := isQuote_cases hclosing <;> rw [h] <;> decide
  have hsign : ¬ isBlank s.sign := by
    obtain h | h := s.sign_eq <;> rw [h] <;> decide
  simp only [secretAssignment, assignedLiteral, reads_atWord, reads_seq_cons, reads_atLeast,
    reads_blanks, reads_one, reads_seq_nil]
  exact ⟨hb, s.name, _, rfl, ⟨List.length_pos_iff.mpr hname, s.word_of_mem_name, by
      simpa [assigned] using s.name_stops⟩, _, [], (List.append_nil _).symm,
    ⟨s.gap, _, rfl, ⟨s.blank_of_mem_gap, by simpa [assigned] using hsign⟩, [s.sign], _, rfl,
      ⟨_, rfl, s.sign_assigns⟩, s.space, _, rfl, ⟨s.blank_of_mem_space, by
        simpa using not_isBlank_of_isQuote s.opening_quotes⟩, [s.opening], _, rfl,
      ⟨_, rfl, s.opening_quotes⟩, s.secret, _, rfl, ⟨hlen, hsecret, by simpa using hstop⟩,
      [s.closing], [], rfl, ⟨_, rfl, hclosing⟩, rfl⟩, rfl⟩

end Secret

/-- A text that ends in a word ends in a whole one. -/
theorem exists_whole_word {word : Text} (hne : word ≠ []) (hword : ∀ c ∈ word, isWord c)
    (a : Text) : ∃ x name, a ++ word = x ++ name ∧ name ≠ [] ∧ (∀ c ∈ name, isWord c) ∧
      ¬ x.getLast?.any isWord := by
  obtain ⟨name, x, e, hname, hx⟩ := exists_run isWord (a ++ word).reverse
  refine ⟨x.reverse, name.reverse, ?_, ?_, by simpa using hname, by rwa [List.getLast?_reverse]⟩
  · rw [← List.reverse_append, ← e, List.reverse_reverse]
  · rintro hnil
    obtain ⟨c, hc⟩ := Option.isSome_iff_exists.mp (List.getLast?_isSome.mpr hne)
    rw [List.reverse_eq_nil_iff.mp hnil, List.nil_append] at e
    rw [← e, List.head?_reverse, List.getLast?_append_of_ne_nil a hne, hc, Option.any_some] at hx
    exact hx (hword c (List.mem_of_getLast? hc))

variable {t value : Text}

/-- A flagged literal is assigned behind a keyword, the end of which is taken for its name. -/
theorem Flagged.exists_secret (h : Flagged t value) : ∃ (a : Text) (s : Secret) (v : Text),
    t = a ++ (s.text ++ v) ∧ s.secret = value ∧ s.name ≠ [] ∧ secretLength ≤ value.length ∧
      (∀ c ∈ value, isSecretCharAnyCase c) ∧ isQuote s.closing := by
  obtain ⟨a, u, v, rfl, hread, rfl⟩ := h
  obtain ⟨front, s, rfl, hne, hquote, hlen, hsecret, hclosing⟩ := hardcodedSecret_parts hread
  have hvalue : quotedValue (front ++ s.text) = s.secret :=
    s.quotedValue_text hquote (fun c hc hq => isQuote_not_isSecretChar c hq (hsecret c hc)) hclosing
  exact ⟨a ++ front, s, v, by simp, hvalue.symm, hne, by rwa [hvalue], by rwa [hvalue], hclosing⟩

theorem Flagged.subset (h : Flagged t value) : value ⊆ t := by
  obtain ⟨a, s, v, rfl, rfl, -⟩ := h.exists_secret
  intro c hc
  simp [Secret.text, Secret.assigned, hc]

/-- The characters beyond ASCII of a flagged literal are there because case is ignored. -/
theorem Flagged.isSecretCharAnyCase (h : Flagged t value) {c : Char} (hc : c ∈ value) :
    isSecretCharAnyCase c := by
  obtain ⟨-, -, -, -, -, -, -, hsecret, -⟩ := h.exists_secret
  exact hsecret c hc

/-- **A flagged literal of ASCII characters is one that the fix looks for.** -/
theorem Flagged.hits_secretAssignment (h : Flagged t value) (ascii : IsAscii value) :
    hits secretAssignment t ≠ [] := by
  obtain ⟨a, s, v, rfl, rfl, hne, hlen, hsecret, hclosing⟩ := h.exists_secret
  have hchars : ∀ c ∈ s.secret, isSecretChar c := fun c hc =>
    (isSecretChar_or_folding (hsecret c hc)).resolve_right fun h =>
      absurd (ascii c hc) (Nat.not_lt.mpr (le_toNat_of_mem_foldingChars h))
  -- the word at the end of the keyword may have begun before it
  obtain ⟨x, name, e, hname, hword, hx⟩ := exists_whole_word hne s.word_of_mem_name a
  let s' : Secret := { s with name := name, word_of_mem_name := hword }
  have hread : Reads (secretAssignment x.getLast?) s'.text v :=
    s'.reads hname hlen hchars hclosing hx v
  refine hits_ne_nil_iff.mpr ⟨x, s'.text, v, ?_, by simp [Secret.text, s', hname], hread⟩
  simp only [Secret.text, List.append_assoc]
  rw [← List.append_assoc a, e, List.append_assoc]
  rfl

end Idiom

namespace Fix

variable {t : Text} {i : Issue}

/-! ## Texts of ASCII characters -/

theorem isAscii_upper (h : IsAscii t) : IsAscii (upper t) := by
  have hupper : ∀ k < 128, (Char.ofNat k).toUpper.toNat < 128 := by decide
  intro d hd
  obtain ⟨c, hc, hd⟩ := List.mem_flatMap.mp hd
  have hlt := h c hc
  have hval : c.val < 128 := UInt32.lt_iff_toNat_lt.mpr hlt
  rw [upperOf, if_pos hval] at hd
  obtain rfl := List.mem_singleton.mp hd
  simpa using hupper c.toNat hlt

/-- A look-up in the place of a secret has the characters of the secret, its name in upper case, and
ASCII characters. -/
theorem isAscii_externalized (s : Idiom.Secret) (h : IsAscii s.text) :
    IsAscii (externalized s.text) := by
  have hkept : IsAscii s.kept := fun c hc => h c (by
    rw [Idiom.Secret.kept] at hc
    split at hc
    · simp [Idiom.Secret.text, hc]
    · rw [Idiom.Secret.text, ← List.append_assoc]
      exact List.mem_append_left _ hc)
  have hname : IsAscii (environmentName s.text) := by
    rw [environmentName, s.secretName_text]
    exact isAscii_upper fun c hc => h c (by simp [Idiom.Secret.text, hc])
  have hfront : IsAscii "process.env.".toList := by decide
  have hbehind : IsAscii " || 'REPLACE_WITH_ENV_VAR'".toList := by decide
  intro c hc
  rw [s.externalized_text, Idiom.Secret.lookup] at hc
  simp only [List.mem_append, List.mem_cons] at hc
  obtain hc | rfl | rfl | hc | hc | hc := hc
  · exact hkept c hc
  · exact h _ (by simp [Idiom.Secret.text, Idiom.Secret.assigned])
  · decide
  · exact hfront c hc
  · exact hname c hc
  · exact hbehind c hc

theorem isAscii_externalizeSecrets (h : IsAscii t) : IsAscii (externalizeSecrets t i).fixed := by
  intro c hc
  rw [fixed_externalizeSecrets] at hc
  obtain hc | ⟨x, hx, hc⟩ := mem_of_mem_replaceHits hc
  · exact h c hc
  · obtain ⟨-, _, _, hread⟩ := reads_of_mem_hits hx
    obtain ⟨s, hs⟩ := Idiom.secretAssignment_parts hread
    rw [hs] at hc
    exact isAscii_externalized s (fun d hd => h d (mem_of_mem_covered hx (hs ▸ hd))) c hc

/-! ## Flagged secrets -/

theorem success_externalizeSecrets_iff :
    (externalizeSecrets t i).success ↔ hits Idiom.secretAssignment t ≠ [] := by
  rw [externalizeSecrets]
  split
  · next h => exact iff_of_false Bool.false_ne_true (not_not.mpr (List.isEmpty_iff.mp h))
  · next h => exact iff_of_true rfl fun e => h (List.isEmpty_iff.mpr e)

theorem reports_hardcodedKeys_iff :
    Rule.hardcodedKeys.Reports t ↔ ∃ value, Idiom.Flagged t value := by
  rw [Rule.reports_iff rfl, Rule.firstHit_ne_nil_iff, hits_ne_nil_iff]
  constructor
  · rintro ⟨a, u, v, e, -, hread⟩
    exact ⟨_, a, u, v, e, hread, rfl⟩
  · rintro ⟨_, a, u, v, e, hread, rfl⟩
    refine ⟨a, u, v, e, ?_, hread⟩
    rintro rfl
    obtain ⟨front, s, hs, hne, -⟩ := Idiom.hardcodedSecret_parts hread
    simp [Idiom.Secret.text, hne] at hs

/-- **Secrets that are flagged are moved.** The rule reports a text exactly if it reads a literal
somewhere in it. If there is one of ASCII characters the fix succeeds, and it leaves none: each
literal that is flagged thereafter has a character beyond ASCII that passes for a letter because
case is ignored. After the fix of an ASCII text there is nothing to report. -/
theorem externalizeSecrets_removes_flagged (t : Text) (i : Issue) :
    (Rule.hardcodedKeys.Reports t ↔ ∃ value, Idiom.Flagged t value) ∧
    (∀ value, Idiom.Flagged t value → IsAscii value → (externalizeSecrets t i).success) ∧
    (∀ value, Idiom.Flagged (externalizeSecrets t i).fixed value →
      ∃ c ∈ value, 128 ≤ c.toNat ∧ Idiom.isSecretCharAnyCase c ∧ ¬ Idiom.isSecretChar c) ∧
    (IsAscii t → ¬ Rule.hardcodedKeys.Reports (externalizeSecrets t i).fixed) := by
  have hbeyond : ∀ value, Idiom.Flagged (externalizeSecrets t i).fixed value →
      ¬ IsAscii value := by
    intro value h ascii
    refine h.hits_secretAssignment ascii ?_
    rw [fixed_externalizeSecrets]
    exact hits_secretAssignment_externalized t
  refine ⟨reports_hardcodedKeys_iff,
    fun value h ascii => success_externalizeSecrets_iff.mpr (h.hits_secretAssignment ascii), ?_, ?_⟩
  · intro value h
    have hexists := hbeyond value h
    rw [IsAscii] at hexists
    push Not at hexists
    obtain ⟨c, hc, hle⟩ := hexists
    exact ⟨c, hc, hle, h.isSecretCharAnyCase hc, fun h =>
      absurd (Idiom.toNat_lt_of_isSecretChar h) (Nat.not_lt.mpr hle)⟩
  · intro ascii hreports
    obtain ⟨value, h⟩ := reports_hardcodedKeys_iff.mp hreports
    exact hbeyond value h fun c hc => isAscii_externalizeSecrets ascii c (h.subset hc)

/-- A key behind the end of a longer name is moved. One with a character that passes for a letter
because case is ignored stays, and is flagged. -/
theorem externalizeSecrets_removes_flagged_sample :
    let value := "0123456789abcdefABCDEF".toList
    let t := "const apiToken = '0123456789abcdefABCDEF';".toList
    let value' := "0123456789abcdef\u017f\u212a0123".toList
    let t' := "token: '0123456789abcdef\u017f\u212a0123'".toList
    let i : Issue := { rule := "hardcoded_private_keys", description := "" }
    (Idiom.Flagged t value ∧ IsAscii value ∧ (externalizeSecrets t i).success ∧
      IsAscii t ∧ ¬ Rule.hardcodedKeys.Reports (externalizeSecrets t i).fixed) ∧
    Idiom.Flagged (externalizeSecrets t' i).fixed value' ∧
      ∃ c ∈ value', 128 ≤ c.toNat ∧ Idiom.isSecretCharAnyCase c ∧ ¬ Idiom.isSecretChar c := by
  intro value t value' t' i
  have hread : Reads (Idiom.hardcodedSecret "const api".toList.getLast?)
      "Token = '0123456789abcdefABCDEF'".toList ";".toList := by
    unfold Reads
    decide +kernel
  have hflagged : Idiom.Flagged t value := ⟨_, _, _, by decide, hread, by decide +kernel⟩
  have hvalue : IsAscii value := by decide
  have ht : IsAscii t := by decide
  obtain ⟨-, hsuccess, -, hnothing⟩ := externalizeSecrets_removes_flagged t i
  have hkept : (externalizeSecrets t' i).fixed = t' := by decide +kernel
  have hread' : Reads (Idiom.hardcodedSecret none) t' [] := by
    unfold Reads
    decide +kernel
  have hflagged' : Idiom.Flagged (externalizeSecrets t' i).fixed value' := by
    rw [hkept]
    exact ⟨[], t', [], by decide, hread', by decide +kernel⟩
  obtain ⟨-, -, hbeyond, -⟩ := externalizeSecrets_removes_flagged t' i
  exact ⟨⟨hflagged, hvalue, hsuccess value hflagged hvalue, ht, hnothing ht⟩, hflagged',
    hbeyond value' hflagged'⟩

end Fix

end Mend

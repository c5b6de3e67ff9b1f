import Mathlib.Data.List.Basic
import Mend.Json.Printer
import Mend.Json.Reader
import Mend.Proofs.Text.Raw

/-!
# JSON that is read back

Texts are read back as they were written, half by half, except that two halves that make up a
character are read as that character. Lists and records of what is read back are read back.

* `escaped_cases`: how characters are written, in ASCII characters that `IsWritten` tells.
* `readText_quote`: a text is read back from between its quotes.
* `Readable`: values that are read back from their indented form, whatever stands behind it.
* `readable_text`, `readable_list`, `readable_record`: what is readable.
* `Readable.ofChars_indented`: a readable value is read back.
-/

namespace Mend

/-! ## Hexadecimal digits -/

namespace Text

theorem hexValue?_digitChar : ∀ d < 16, hexValue? (Nat.digitChar d) = some d := by decide

theorem foldlM_toDigits (n : Nat) :
    (Nat.toDigits 16 n).foldlM (fun n c => (hexValue? c).map (16 * n + ·)) 0 = some n := by
  induction n using Nat.strongRecOn with
  | ind n ih =>
    rw [Nat.toDigits_eq_if (by decide)]
    split
    · next hn => simp [hexValue?_digitChar n hn]
    · have hlast : n % 16 < 16 := Nat.mod_lt n (by decide)
      rw [List.foldlM_append, ih (n / 16) (by omega)]
      simp [hexValue?_digitChar _ hlast]
      omega

theorem exists_digitChar {n : Nat} {c : Char} (h : c ∈ Nat.toDigits 16 n) :
    ∃ d < 16, c = Nat.digitChar d := by
  induction n using Nat.strongRecOn with
  | ind n ih =>
    rw [Nat.toDigits_eq_if (by decide)] at h
    split at h
    · next hn => exact ⟨n, hn, List.mem_singleton.mp h⟩
    · next hn =>
      rcases List.mem_append.mp h with h | h
      · exact ih (n / 16) (by omega) h
      · exact ⟨n % 16, Nat.mod_lt n (by decide), List.mem_singleton.mp h⟩

/-- **A number is read back from its four hexadecimal digits.** -/
theorem exists_hex {n : Nat} (h : n < 0x10000) :
    ∃ a b c d, hex 4 n = [a, b, c, d] ∧ ofHex? [a, b, c, d] = some n := by
  have hdigits : (Nat.toDigits 16 n).length ≤ 4 :=
    (Nat.length_toDigits_le_iff (by decide) (by decide)).mpr h
  have hlength : (hex 4 n).length = 4 := by
    unfold hex
    rw [List.length_append, List.length_replicate]
    omega
  have hzeros : ∀ k, (List.replicate k '0').foldlM
      (fun n c => (hexValue? c).map (16 * n + ·)) 0 = some 0 := by
    intro k
    induction k with
    | zero => rfl
    | succ k ih =>
      rw [List.replicate_succ, List.foldlM_cons]
      exact ih
  have hvalue : ofHex? (hex 4 n) = some n := by
    unfold ofHex? hex
    rw [List.foldlM_append, hzeros]
    exact foldlM_toDigits n
  obtain ⟨a, b, c, d, hhex⟩ := List.length_eq_four.mp hlength
  exact ⟨a, b, c, d, hhex, hhex ▸ hvalue⟩

end Text

namespace Json

/-- The characters that values are written with: ASCII characters, but no carriage return. -/
def IsWritten (c : Char) : Prop := c.toNat < 128 ∧ c ≠ '\r'

instance (c : Char) : Decidable (IsWritten c) := inferInstanceAs (Decidable (_ ∧ _))

theorem isWritten_of_all {t : List Char} (h : (t.all fun c => decide (IsWritten c)) = true) :
    ∀ c ∈ t, IsWritten c :=
  fun c hc => of_decide_eq_true (List.all_eq_true.mp h c hc)

/-- How a character is written: as a letter behind a backslash, as it is, or by its UTF-16 units. -/
theorem escaped_cases (c : Char) :
    (∃ e, escaped c = ['\\', e] ∧ simpleEscape? e = some c ∧ IsWritten e) ∨
    (escaped c = [c] ∧ c ≠ '\x22' ∧ c ≠ '\\' ∧ 0x20 ≤ c.toNat ∧ IsWritten c) ∨
    (escaped c = unitEscape c.toNat ∧ c.toNat < 0x10000) ∨
    (escaped c = unitEscape (0xd800 + (c.toNat - 0x10000) / 0x400) ++
        unitEscape (0xdc00 + (c.toNat - 0x10000) % 0x400) ∧ 0x10000 ≤ c.toNat) := by
  have hsimple : ∀ {x e : Char}, (c == x) = true → simpleEscape? e = some x → IsWritten e →
      ∃ e', (['\\', e] : List Char) = ['\\', e'] ∧ simpleEscape? e' = some c ∧ IsWritten e' := by
    intro x e hx he hwritten
    exact ⟨e, rfl, eq_of_beq hx ▸ he, hwritten⟩
  unfold escaped
  dsimp only
  by_cases hquote : (c == '\x22') = true
  · rw [if_pos hquote]
    exact .inl (hsimple hquote rfl (by decide))
  by_cases hbackslash : (c == '\\') = true
  · rw [if_neg hquote, if_pos hbackslash]
    exact .inl (hsimple hbackslash rfl (by decide))
  by_cases hnewline : (c == '\n') = true
  · rw [if_neg hquote, if_neg hbackslash, if_pos hnewline]
    exact .inl (hsimple hnewline rfl (by decide))
  by_cases hreturn : (c == '\r') = true
  · rw [if_neg hquote, if_neg hbackslash, if_neg hnewline, if_pos hreturn]
    exact .inl (hsimple hreturn rfl (by decide))
  rw [if_neg hquote, if_neg hbackslash, if_neg hnewline, if_neg hreturn]
  split
  · next h => exact .inl (hsimple h rfl (by decide))
  split
  · next h => exact .inl (hsimple h rfl (by decide))
  split
  · next h => exact .inl (hsimple h rfl (by decide))
  split
  · next h =>
    rw [Bool.and_eq_true, decide_eq_true_iff, decide_eq_true_iff] at h
    refine .inr (.inl ⟨rfl, ?_, ?_, h.1, by omega, ?_⟩)
    · simpa using hquote
    · simpa using hbackslash
    · simpa using hreturn
  split
  · next h => exact .inr (.inr (.inl ⟨rfl, h⟩))
  · next h => exact .inr (.inr (.inr ⟨rfl, Nat.not_lt.mp h⟩))

/-! ## What is written -/

theorem isWritten_unitEscape (n : Nat) : ∀ c ∈ unitEscape n, IsWritten c := by
  have hdigit : ∀ d < 16, IsWritten (Nat.digitChar d) := by decide
  have hhex : ∀ c ∈ Text.hex 4 n, IsWritten c := by
    intro c hc
    rcases List.mem_append.mp hc with hc | hc
    · rw [List.eq_of_mem_replicate hc]
      decide
    · obtain ⟨d, hd, rfl⟩ := Text.exists_digitChar hc
      exact hdigit d hd
  unfold unitEscape
  rw [List.forall_mem_cons, List.forall_mem_cons]
  exact ⟨by decide, by decide, hhex⟩

/-- A code point is written with at least one character, and only with written ones. -/
theorem isWritten_escapedPoint (p : Point) :
    escapedPoint p ≠ [] ∧ ∀ c ∈ escapedPoint p, IsWritten c := by
  have hunit : ∀ n, unitEscape n ≠ [] := fun n => List.cons_ne_nil _ _
  cases p with
  | half n => exact ⟨hunit _, isWritten_unitEscape _⟩
  | char c =>
    show escaped c ≠ [] ∧ ∀ x ∈ escaped c, IsWritten x
    rcases escaped_cases c with ⟨e, h, -, he⟩ | ⟨h, -, -, -, hc⟩ | ⟨h, -⟩ | ⟨h, -⟩ <;> rw [h]
    · exact ⟨List.cons_ne_nil _ _, by simp [he]; decide⟩
    · exact ⟨List.cons_ne_nil _ _, by simpa using hc⟩
    · exact ⟨hunit _, isWritten_unitEscape _⟩
    · refine ⟨List.append_ne_nil_of_left_ne_nil (hunit _) _, ?_⟩
      rw [List.forall_mem_append]
      exact ⟨isWritten_unitEscape _, isWritten_unitEscape _⟩

section Texts

variable (done : RawText) (fuel : Nat) (rest : List Char)

theorem readText_simple {e c : Char} (h : simpleEscape? e = some c) :
    readText done (fuel + 1) ('\\' :: e :: rest) = readText (.char c :: done) fuel rest := by
  have hu : e ≠ 'u' := by
    rintro rfl
    cases h
  rw [readText]
  · simp [h]
  · exact fun _ _ _ _ _ he _ => hu he

theorem readText_unit {n : Nat} (hn : n < 0x10000) (hhigh : Point.isHigh n = false) :
    readText done (fuel + 1) (unitEscape n ++ rest) = readText (.ofCode n :: done) fuel rest := by
  obtain ⟨a, b, c, d, hhex, hvalue⟩ := Text.exists_hex hn
  unfold unitEscape
  rw [hhex]
  simp only [List.cons_append, List.nil_append]
  rw [readText]
  simp [hvalue, hhigh]

theorem readText_pair {high low : Nat} (hhigh : Point.isHigh high = true)
    (hlow : Point.isLow low = true) :
    readText done (fuel + 1) (unitEscape high ++ unitEscape low ++ rest) =
      readText (.ofPair high low :: done) fuel rest := by
  have hbounds : high < 0x10000 ∧ low < 0x10000 := by
    rw [Point.isHigh_iff] at hhigh
    rw [Point.isLow_iff] at hlow
    omega
  obtain ⟨a, b, c, d, hhex, hvalue⟩ := Text.exists_hex hbounds.1
  obtain ⟨a', b', c', d', hhex', hvalue'⟩ := Text.exists_hex hbounds.2
  unfold unitEscape
  rw [hhex, hhex']
  simp only [List.cons_append, List.nil_append]
  rw [readText]
  simp [hvalue, hhigh, lowHalf?, hvalue', hlow]

theorem readText_printable {c : Char} (hquote : c ≠ '\x22') (hbackslash : c ≠ '\\')
    (h : 0x20 ≤ c.toNat) :
    readText done (fuel + 1) (c :: rest) = readText (.char c :: done) fuel rest := by
  rw [readText.eq_def]
  simp [hquote, hbackslash, Nat.not_lt.mpr h]

/-- A character of two halves is read back from its halves. -/
theorem readText_halves {c : Char} (h : 0x10000 ≤ c.toNat) :
    readText done (fuel + 1) (unitEscape (0xd800 + (c.toNat - 0x10000) / 0x400) ++
        unitEscape (0xdc00 + (c.toNat - 0x10000) % 0x400) ++ rest) =
      readText (.char c :: done) fuel rest := by
  have hvalid : c.toNat < 0xd800 ∨ 0xdfff < c.toNat ∧ c.toNat < 0x110000 := c.valid
  have hchar : Point.ofPair (0xd800 + (c.toNat - 0x10000) / 0x400)
      (0xdc00 + (c.toNat - 0x10000) % 0x400) = .char c := by
    have hsum : 0x10000 + (0xd800 + (c.toNat - 0x10000) / 0x400 - 0xd800) * 0x400 +
        (0xdc00 + (c.toNat - 0x10000) % 0x400 - 0xdc00) = c.toNat := by omega
    unfold Point.ofPair Point.firstHalf Point.firstLow
    rw [hsum, Char.ofNat_toNat]
  rw [readText_pair, hchar]
  · rw [Point.isHigh_iff]
    omega
  · rw [Point.isLow_iff]
    omega

/-- A character is read back from its escape. -/
theorem readText_escaped (c : Char) :
    readText done (fuel + 1) (escaped c ++ rest) = readText (.char c :: done) fuel rest := by
  rcases escaped_cases c with ⟨e, h, he, -⟩ | ⟨h, hquote, hbackslash, hlow, -⟩ | ⟨h, hn⟩ | ⟨h, hn⟩
    <;> rw [h]
  · exact readText_simple done fuel rest he
  · exact readText_printable done fuel rest hquote hbackslash hlow
  · rw [readText_unit done fuel rest hn (Point.legible_char c)]
    exact congrArg (fun p => readText (p :: done) fuel rest) (Point.ofCode_code (.char c))
  · exact readText_halves done fuel rest hn

/-- **A code point is read back from how it is written**, unless it is a first half. -/
theorem readText_escapedPoint {p : Point} (hp : p.Legible) :
    readText done (fuel + 1) (escapedPoint p ++ rest) = readText (p :: done) fuel rest := by
  cases p with
  | char c => exact readText_escaped done fuel rest c
  | half n =>
    have hn : (n : Nat) < 0x800 := n.isLt
    have hcode : (Point.half n).code < 0x10000 := by
      show 0xd800 + (n : Nat) < 0x10000
      omega
    show readText done (fuel + 1) (unitEscape (Point.half n).code ++ rest) = _
    rw [readText_unit done fuel rest hcode hp, Point.ofCode_code]

end Texts

/-- **A text is read back from between its quotes.** -/
theorem readText_quote {s : RawText} (hs : ∀ p ∈ s, p.Legible) (done : RawText) {fuel : Nat}
    (hfuel : s.length < fuel) (rest : List Char) :
    readText done fuel (s.flatMap escapedPoint ++ '\x22' :: rest) =
      some (done.reverse ++ s, rest) := by
  induction s generalizing done fuel with
  | nil =>
    obtain ⟨fuel, rfl⟩ := Nat.exists_eq_add_one_of_ne_zero (Nat.ne_zero_of_lt hfuel)
    rw [List.flatMap_nil, List.nil_append, readText.eq_def]
    simp
  | cons p s ih =>
    rw [List.length_cons] at hfuel
    obtain ⟨fuel, rfl⟩ := Nat.exists_eq_add_one_of_ne_zero (Nat.ne_zero_of_lt hfuel)
    rw [List.flatMap_cons, List.append_assoc, readText_escapedPoint _ _ _ (hs p (by simp)),
      ih (fun q hq => hs q (by simp [hq])) _ (by omega)]
    simp

theorem length_le_flatMap_escapedPoint (s : RawText) :
    s.length ≤ (s.flatMap escapedPoint).length := by
  induction s with
  | nil => simp
  | cons p s ih =>
    have hpoint : 0 < (escapedPoint p).length :=
      List.length_pos_iff.mpr (isWritten_escapedPoint p).1
    rw [List.flatMap_cons, List.length_append, List.length_cons]
    omega

theorem toList_quote (s : RawText) :
    (quote s).toList = '\x22' :: (s.flatMap escapedPoint ++ ['\x22']) := by
  have hmark : "\x22".toList = ['\x22'] := rfl
  simp only [quote, String.toList_append, String.toList_ofList, hmark, List.cons_append,
    List.nil_append]

theorem isWritten_quote (s : RawText) : ∀ c ∈ (quote s).toList, IsWritten c := by
  rw [toList_quote, List.forall_mem_cons, List.forall_mem_append]
  refine ⟨by decide, fun c hc => ?_, isWritten_of_all (by decide)⟩
  obtain ⟨p, -, hc⟩ := List.mem_flatMap.mp hc
  exact (isWritten_escapedPoint p).2 c hc

theorem toList_newLine (level : Nat) :
    (newLine level).toList = '\n' :: List.replicate (2 * level) ' ' := by
  have hbreak : "\n".toList = ['\n'] := rfl
  simp only [newLine, String.toList_append, String.toList_ofList, hbreak, List.singleton_append]

theorem isWritten_newLine (level : Nat) : ∀ c ∈ (newLine level).toList, IsWritten c := by
  rw [toList_newLine, List.forall_mem_cons]
  refine ⟨by decide, fun c hc => ?_⟩
  rw [List.eq_of_mem_replicate hc]
  decide

/-! ## Values -/

theorem skipGap_newLine (level : Nat) (t : List Char) :
    skipGap ((newLine level).toList ++ t) = skipGap t := by
  unfold skipGap
  rw [toList_newLine, List.cons_append, List.dropWhile_cons_of_pos (by decide),
    List.dropWhile_append_of_pos]
  intro c hc
  rw [List.eq_of_mem_replicate hc]
  rfl

theorem skipGap_cons {c : Char} (hc : isGap c = false) (t : List Char) :
    skipGap (c :: t) = c :: t := List.dropWhile_cons_of_neg (by simp [hc])

/-- A value with no more than `depth` levels is read back from its form at a level of indentation,
whatever stands behind it. -/
structure Readable (depth level : Nat) (v : Json) : Prop where
  head : ∃ c t, (indentedAt level v).toList = c :: t ∧ isGap c = false ∧ c ≠ ']'
  read : ∀ fuel levels rest, 2 * (indentedAt level v).length ≤ fuel → depth ≤ levels →
    readValue fuel levels ((indentedAt level v).toList ++ rest) = .ok (v, rest)
  written : ∀ c ∈ (indentedAt level v).toList, IsWritten c

/-- **A text is readable.** -/
theorem readable_text {s : RawText} (hs : ∀ p ∈ s, p.Legible) (level : Nat) :
    Readable 0 level (.text s) where
  head := ⟨'\x22', _, toList_quote s, rfl, by decide⟩
  read := by
    intro fuel levels rest hfuel _
    have hlength : (quote s).length = (s.flatMap escapedPoint).length + 2 := by
      rw [← String.length_toList, toList_quote]
      simp
    have hshort := length_le_flatMap_escapedPoint s
    unfold indentedAt at hfuel ⊢
    obtain ⟨fuel, rfl⟩ : ∃ n, fuel = n + 1 := ⟨fuel - 1, by omega⟩
    rw [toList_quote, List.cons_append, List.append_assoc, List.singleton_append, readValue]
    rw [if_pos (by decide), readText_quote hs _ (by omega)]
    rfl
  written := isWritten_quote s

section Brackets

variable {levels : Nat} (hlevels : levels ≠ 0) (fuel : Nat) {t rest : List Char}

include hlevels

theorem readValue_emptyList :
    readValue (fuel + 1) levels ('[' :: ']' :: rest) = .ok (.list [], rest) := by
  rw [readValue, if_neg (by decide), if_pos (by decide), if_neg hlevels, skipGap_cons rfl]
  rfl

theorem readValue_list (hrest : skipGap rest = t) (ht : ∀ u, t ≠ ']' :: u) :
    readValue (fuel + 1) levels ('[' :: rest) = readItems fuel (levels - 1) [] t := by
  rw [readValue, if_neg (by decide), if_pos (by decide), if_neg hlevels, hrest]
  split
  · exact absurd rfl (ht _)
  · rfl

theorem readValue_emptyRecord :
    readValue (fuel + 1) levels ('\x7b' :: '\x7d' :: rest) = .ok (.record [], rest) := by
  rw [readValue, if_neg (by decide), if_neg (by decide), if_pos (by decide), if_neg hlevels,
    skipGap_cons rfl]
  rfl

theorem readValue_record (hrest : skipGap rest = t) (ht : ∀ u, t ≠ '\x7d' :: u) :
    readValue (fuel + 1) levels ('\x7b' :: rest) = readFields fuel (levels - 1) [] t := by
  rw [readValue, if_neg (by decide), if_neg (by decide), if_pos (by decide), if_neg hlevels, hrest]
  split
  · exact absurd rfl (ht _)
  · rfl

end Brackets

section Signs

variable {depth level : Nat} {v : Json} (opening closing : Char)
  (hopening : isGap opening = false ∧ opening ≠ ']')
  (hsigns : IsWritten opening ∧ IsWritten closing)

include hopening hsigns

/-- A value that is written as two signs is readable if it is read from them. -/
theorem readable_of_signs (htext : (indentedAt level v).toList = [opening, closing])
    (hread : ∀ fuel levels rest, levels ≠ 0 →
      readValue (fuel + 1) levels (opening :: closing :: rest) = .ok (v, rest)) :
    Readable (depth + 1) level v := by
  refine ⟨⟨opening, [closing], htext, hopening⟩, fun fuel levels rest hfuel hlevels => ?_,
    by simpa [htext] using hsigns⟩
  have hlength : (indentedAt level v).length = 2 := by
    rw [← String.length_toList, htext]
    rfl
  obtain ⟨fuel, rfl⟩ : ∃ n, fuel = n + 1 := ⟨fuel - 1, by omega⟩
  rw [htext]
  exact hread fuel levels rest (by omega)

/-- A value that is written as two signs around lines with what is in it is readable if it is read
from behind the first sign on. -/
theorem readable_of_body (body : String) (htext : (indentedAt level v).toList =
      opening :: ((newLine (level + 1)).toList ++ (body.toList ++
        ((newLine level).toList ++ [closing]))))
    (hbody : ∃ c t, body.toList = c :: t ∧ isGap c = false ∧ c ≠ closing)
    (hwritten : ∀ c ∈ body.toList, IsWritten c)
    (hread : ∀ fuel levels rest t u, 2 * body.length < fuel → depth + 1 ≤ levels →
      u = body.toList ++ ((newLine level).toList ++ closing :: rest) → skipGap t = u →
      (∀ w, u ≠ closing :: w) → readValue (fuel + 1) levels (opening :: t) = .ok (v, rest)) :
    Readable (depth + 1) level v := by
  refine ⟨⟨opening, _, htext, hopening⟩, fun fuel levels rest hfuel hlevels => ?_, ?_⟩
  · have hlength : body.length < (indentedAt level v).length := by
      rw [← String.length_toList, ← String.length_toList, htext]
      simp only [List.length_cons, List.length_append]
      omega
    obtain ⟨fuel, rfl⟩ : ∃ n, fuel = n + 1 := ⟨fuel - 1, by omega⟩
    obtain ⟨c, t, hc, hgap, hclosing⟩ := hbody
    rw [htext]
    simp only [List.cons_append, List.append_assoc, List.nil_append]
    refine hread fuel levels rest _ _ (by omega) hlevels rfl ?_ ?_
    · rw [skipGap_newLine, hc, List.cons_append, skipGap_cons hgap]
    · intro w e
      rw [hc] at e
      exact hclosing (List.cons.inj e).1
  · rw [htext]
    simp only [List.forall_mem_cons, List.forall_mem_append]
    exact ⟨hsigns.1, isWritten_newLine _, hwritten, isWritten_newLine _, hsigns.2,
      List.forall_mem_nil _⟩

end Signs

section Items

variable {depth level : Nat} {xs : List Json}

/-- The items of a list begin with neither white space nor the end of the list. -/
theorem exists_indentedItems (hxs : ∀ x ∈ xs, Readable depth level x) (hne : xs ≠ []) :
    ∃ c t, (indentedItems level xs).toList = c :: t ∧ isGap c = false ∧ c ≠ ']' := by
  cases xs with
  | nil => exact absurd rfl hne
  | cons x xs =>
    obtain ⟨c, t, htext, hc⟩ := (hxs x (by simp)).head
    cases xs with
    | nil => exact ⟨c, t, htext, hc⟩
    | cons y ys =>
      rw [indentedItems]
      simp only [String.toList_append, htext, List.cons_append]
      exact ⟨c, _, rfl, hc⟩

theorem readItems_indentedItems (hxs : ∀ x ∈ xs, Readable depth level x) (hne : xs ≠ [])
    (done : List Json) (close fuel levels : Nat) (rest : List Char)
    (hfuel : 2 * (indentedItems level xs).length < fuel) (hlevels : depth ≤ levels) :
    readItems fuel levels done
        ((indentedItems level xs).toList ++ ((newLine close).toList ++ ']' :: rest)) =
      .ok (.list (done.reverse ++ xs), rest) := by
  induction xs generalizing done fuel with
  | nil => exact absurd rfl hne
  | cons x xs ih =>
    obtain ⟨fuel, rfl⟩ : ∃ n, fuel = n + 1 := ⟨fuel - 1, by omega⟩
    have hx : Readable depth level x := hxs x (by simp)
    cases xs with
    | nil =>
      unfold indentedItems at hfuel ⊢
      rw [readItems, hx.read fuel levels _ (by omega) hlevels]
      dsimp only
      rw [skipGap_newLine, skipGap_cons rfl]
      simp
    | cons y ys =>
      have hys : ∀ z ∈ y :: ys, Readable depth level z :=
        fun z hz => hxs z (List.mem_cons_of_mem _ hz)
      obtain ⟨c, t, htext, hc, -⟩ := exists_indentedItems hys (by simp)
      have hcomma : ",".toList = [','] := rfl
      have hone : ",".length = 1 := rfl
      rw [indentedItems] at hfuel ⊢
      simp only [String.length_append] at hfuel
      simp only [String.toList_append, List.append_assoc]
      rw [readItems, hx.read fuel levels _ (by omega) hlevels]
      dsimp only
      rw [hcomma, List.singleton_append, skipGap_cons rfl]
      show readItems fuel levels (x :: done) (skipGap _) = _
      rw [skipGap_newLine, htext, List.cons_append, skipGap_cons hc, ← List.cons_append, ← htext,
        ih hys (by simp) _ fuel (by omega)]
      simp

theorem isWritten_indentedItems (hxs : ∀ x ∈ xs, Readable depth level x) :
    ∀ c ∈ (indentedItems level xs).toList, IsWritten c := by
  induction xs with
  | nil => simp [indentedItems]
  | cons x xs ih =>
    have hx := (hxs x (by simp)).written
    have hrest := ih fun y hy => hxs y (List.mem_cons_of_mem _ hy)
    cases xs with
    | nil =>
      rw [indentedItems]
      exact hx
    | cons y ys =>
      have hcomma : ∀ c ∈ ",".toList, IsWritten c := isWritten_of_all (by decide)
      rw [indentedItems]
      simp only [String.toList_append, List.forall_mem_append]
      exact ⟨⟨⟨hx, hcomma⟩, isWritten_newLine level⟩, hrest⟩

/-- **A list of what is readable is readable.** -/
theorem readable_list (hxs : ∀ x ∈ xs, Readable depth (level + 1) x) :
    Readable (depth + 1) level (.list xs) := by
  have hopen : "[".toList = ['['] := rfl
  have hclose : "]".toList = [']'] := rfl
  cases xs with
  | nil =>
    refine readable_of_signs '[' ']' (by decide) (by decide) ?_
      fun fuel _ _ h => readValue_emptyList h fuel
    rw [indentedAt]
    rfl
  | cons x xs =>
    refine readable_of_body '[' ']' (by decide) (by decide) (indentedItems (level + 1) (x :: xs)) ?_
      (exists_indentedItems hxs (by simp)) (isWritten_indentedItems hxs)
      fun fuel levels rest t u hfuel hlevels hu ht hend => ?_
    · rw [indentedAt]
      simp only [String.toList_append, hopen, hclose, List.append_assoc, List.cons_append,
        List.nil_append]
    · rw [readValue_list (by omega) fuel ht hend, hu,
        readItems_indentedItems hxs (by simp) [] level fuel (levels - 1) rest hfuel (by omega)]
      rfl

end Items

theorem setField_of_not_mem {name : RawText} {fields : List (RawText × Json)}
    (h : name ∉ fields.map Prod.fst) (v : Json) :
    setField name v fields = fields ++ [(name, v)] := by
  induction fields with
  | nil => rfl
  | cons f fields ih =>
    rw [List.map_cons, List.mem_cons, not_or] at h
    rw [setField, if_neg (Ne.symm h.1), ih h.2]
    rfl

section Fields

variable {depth level : Nat} {fields : List (RawText × Json)}

/-- The fields of a record begin with a quote. -/
theorem exists_indentedFields (level : Nat) (hne : fields ≠ []) :
    ∃ t, (indentedFields level fields).toList = '\x22' :: t := by
  cases fields with
  | nil => exact absurd rfl hne
  | cons f fields =>
    obtain ⟨name, v⟩ := f
    cases fields with
    | nil =>
      rw [indentedFields]
      simp only [String.toList_append, toList_quote, List.cons_append]
      exact ⟨_, rfl⟩
    | cons g gs =>
      rw [indentedFields]
      simp only [String.toList_append, toList_quote, List.cons_append]
      exact ⟨_, rfl⟩

/-- The name and the value of a field are read back. -/
theorem readFields_field {name : RawText} {v : Json} (hname : ∀ p ∈ name, p.Legible)
    (hv : Readable depth level v) (done : List (RawText × Json)) {fuel levels : Nat}
    (hfuel : 2 * (quote name ++ ": " ++ indentedAt level v).length ≤ fuel)
    (hlevels : depth ≤ levels) (rest : List Char) :
    readFields (fuel + 1) levels done
        ((quote name).toList ++ (": ".toList ++ ((indentedAt level v).toList ++ rest))) =
      match skipGap rest with
      | ',' :: rest => readFields fuel levels (setField name v done) (skipGap rest)
      | '\x7d' :: rest => .ok (.record (setField name v done), rest)
      | _ => .error .malformed := by
  have hlength : (quote name).length = (name.flatMap escapedPoint).length + 2 := by
    rw [← String.length_toList, toList_quote]
    simp
  have hshort := length_le_flatMap_escapedPoint name
  have hcolon : ": ".toList = [':', ' '] := rfl
  simp only [String.length_append] at hfuel
  obtain ⟨c, t, htext, hc, -⟩ := hv.head
  rw [toList_quote, List.cons_append, List.append_assoc, List.singleton_append, readFields,
    readText_quote hname _ (by omega), hcolon]
  dsimp only [List.cons_append, List.nil_append]
  rw [skipGap_cons rfl]
  have hgap : skipGap (' ' :: ((indentedAt level v).toList ++ rest)) =
      (indentedAt level v).toList ++ rest := by
    rw [htext, List.cons_append]
    exact skipGap_cons hc _
  split
  · next u hu =>
    rw [← (List.cons.inj hu).2, hgap, hv.read fuel levels rest (by omega) hlevels]
    rfl
  · next h => exact absurd rfl (h _)

theorem readFields_indentedFields
    (hfields : ∀ f ∈ fields, (∀ p ∈ f.1, p.Legible) ∧ Readable depth level f.2)
    (hne : fields ≠ []) (done : List (RawText × Json))
    (hnames : ((done ++ fields).map Prod.fst).Nodup) (close fuel levels : Nat) (rest : List Char)
    (hfuel : 2 * (indentedFields level fields).length < fuel) (hlevels : depth ≤ levels) :
    readFields fuel levels done
        ((indentedFields level fields).toList ++ ((newLine close).toList ++ '\x7d' :: rest)) =
      .ok (.record (done ++ fields), rest) := by
  induction fields generalizing done fuel with
  | nil => exact absurd rfl hne
  | cons f fields ih =>
    obtain ⟨name, v⟩ := f
    obtain ⟨fuel, rfl⟩ : ∃ n, fuel = n + 1 := ⟨fuel - 1, by omega⟩
    obtain ⟨hname, hv⟩ : (∀ p ∈ name, p.Legible) ∧ Readable depth level v :=
      hfields (name, v) (by simp)
    have hset : setField name v done = done ++ [(name, v)] := by
      refine setField_of_not_mem (fun hmem => ?_) v
      rw [List.map_append, List.nodup_append] at hnames
      exact hnames.2.2 name hmem name (by simp) rfl
    cases fields with
    | nil =>
      rw [indentedFields] at hfuel ⊢
      simp only [String.toList_append, List.append_assoc]
      rw [readFields_field hname hv done (by omega) hlevels, skipGap_newLine, skipGap_cons rfl,
        hset]
      rfl
    | cons g gs =>
      have hrest : ∀ f ∈ g :: gs, (∀ p ∈ f.1, p.Legible) ∧ Readable depth level f.2 :=
        fun f hf => hfields f (List.mem_cons_of_mem _ hf)
      obtain ⟨t, ht⟩ := exists_indentedFields level (List.cons_ne_nil g gs)
      have hcomma : ",".toList = [','] := rfl
      have hone : ",".length = 1 := rfl
      rw [indentedFields] at hfuel ⊢
      have hshort : 2 * (quote name ++ ": " ++ indentedAt level v).length ≤ fuel := by
        simp only [String.length_append] at hfuel ⊢
        omega
      simp only [String.length_append] at hfuel
      simp only [String.toList_append, List.append_assoc]
      rw [readFields_field hname hv done hshort hlevels, hcomma, List.singleton_append,
        skipGap_cons rfl, hset]
      show readFields fuel levels (done ++ [(name, v)]) (skipGap _) = _
      rw [skipGap_newLine, ht, List.cons_append, skipGap_cons rfl, ← List.cons_append, ← ht,
        ih hrest (by simp) _ (by simpa using hnames) fuel (by omega)]
      simp

theorem isWritten_indentedFields
    (hfields : ∀ f ∈ fields, (∀ p ∈ f.1, p.Legible) ∧ Readable depth level f.2) :
    ∀ c ∈ (indentedFields level fields).toList, IsWritten c := by
  have hcolon : ∀ c ∈ ": ".toList, IsWritten c := isWritten_of_all (by decide)
  have hcomma : ∀ c ∈ ",".toList, IsWritten c := isWritten_of_all (by decide)
  induction fields with
  | nil => simp [indentedFields]
  | cons f fields ih =>
    obtain ⟨name, v⟩ := f
    have hv : Readable depth level v := (hfields (name, v) (by simp)).2
    have hrest := ih fun g hg => hfields g (List.mem_cons_of_mem _ hg)
    cases fields with
    | nil =>
      rw [indentedFields]
      simp only [String.toList_append, List.forall_mem_append]
      exact ⟨⟨isWritten_quote name, hcolon⟩, hv.written⟩
    | cons g gs =>
      rw [indentedFields]
      simp only [String.toList_append, List.forall_mem_append]
      exact ⟨⟨⟨⟨⟨isWritten_quote name, hcolon⟩, hv.written⟩, hcomma⟩, isWritten_newLine level⟩,
        hrest⟩

/-- **A record of what is readable is readable**, if its fields have different names. -/
theorem readable_record
    (hfields : ∀ f ∈ fields, (∀ p ∈ f.1, p.Legible) ∧ Readable depth (level + 1) f.2)
    (hnames : (fields.map Prod.fst).Nodup) : Readable (depth + 1) level (.record fields) := by
  have hopen : "\x7b".toList = ['\x7b'] := rfl
  have hclose : "\x7d".toList = ['\x7d'] := rfl
  cases fields with
  | nil =>
    refine readable_of_signs '\x7b' '\x7d' (by decide) (by decide) ?_
      fun fuel _ _ h => readValue_emptyRecord h fuel
    rw [indentedAt]
    rfl
  | cons f fields =>
    obtain ⟨q, hquote⟩ := exists_indentedFields (level + 1) (List.cons_ne_nil f fields)
    refine readable_of_body '\x7b' '\x7d' (by decide) (by decide)
      (indentedFields (level + 1) (f :: fields)) ?_ ⟨_, q, hquote, rfl, by decide⟩
      (isWritten_indentedFields hfields)
      fun fuel levels rest t u hfuel hlevels hu ht hend => ?_
    · rw [indentedAt]
      simp only [String.toList_append, hopen, hclose, List.append_assoc, List.cons_append,
        List.nil_append]
    · rw [readValue_record (by omega) fuel ht hend, hu, readFields_indentedFields hfields (by simp)
        [] (by simpa using hnames) level fuel (levels - 1) rest hfuel (by omega)]
      rfl

end Fields

/-- **A readable value is read back.** -/
theorem Readable.ofChars_indented {depth : Nat} {v : Json} (h : Readable depth 0 v)
    (hdepth : depth ≤ levelLimit) : ofChars (indented v).toList = .ok v := by
  obtain ⟨c, t, htext, hc, -⟩ := h.head
  have hgap : skipGap (indented v).toList = (indented v).toList := by
    unfold indented
    rw [htext, skipGap_cons hc]
  have hread : readValue (2 * (indented v).toList.length + 2) levelLimit (indented v).toList =
      .ok (v, []) := by
    have h := h.read (2 * (indented v).toList.length + 2) levelLimit []
      (by rw [String.length_toList]; exact Nat.le_add_right _ _) hdepth
    rwa [List.append_nil] at h
  unfold ofChars
  rw [hgap, hread]
  rfl

end Json

end Mend

import Mathlib.Tactic.Tauto
import Mend.Proofs.Text.Reading

/-!
# What a scan finds

`Scanned p b l n t ps` follows a scan from hit to hit instead of from character to character: the
pieces of a text `t` that comes after the character `b`, starts on line `l` and has `n` hits in
front of it. Where two texts `Clash`, no texts behind them make them the same, so that a hit that
clashes with what replaces it leaves a mark in the text.

* `scanned_scan`: a scan cuts the text as `Scanned` says.
* `exists_place_of_mem_hits`, `map_number_hits`: hits stand in the text, on the lines they tell, and
  are numbered in its order.
* `Scanned.exists_hit_of_word`: a pattern that reads words only has a hit wherever it reads one.
* `hits_ne_nil_iff`: there are hits where the pattern reads something, and nowhere else.
* `firstMatch?_reads`: the first hit is a piece that the pattern reads at its place.
* `replaceHits_ne`, `replaceFirst_ne`: replacing hits that clash changes the text.
-/

namespace Mend.Text

open Reader

/-! ## Patterns stay within the text -/

section Patterns

variable {b : Option Char} {u v : Text}

instance {r : Reader} [Within r] : Within (Pattern.anywhere r b) := inferInstanceAs (Within r)

instance {r : Reader} [Within r] : Within (Pattern.atWord r b) where
  le_length {t n} h := by
    rw [Pattern.atWord] at h
    split at h
    · simp at h
    · exact Within.le_length h

instance {r : Reader} [Within r] : Within (Pattern.atLine r b) where
  le_length {t n} h := by
    rw [Pattern.atLine] at h
    split at h
    · exact Within.le_length h
    · simp at h

@[simp] theorem reads_anywhere {r : Reader} : Reads (Pattern.anywhere r b) u v ↔ Reads r u v :=
  Iff.rfl

@[simp] theorem reads_atWord {r : Reader} :
    Reads (Pattern.atWord r b) u v ↔ ¬ b.any isWord ∧ Reads r u v := by
  rw [Reads, Reads, Pattern.atWord]
  split
  · next h => simp [h]
  · next h => simp [h]

@[simp] theorem reads_atLine {r : Reader} :
    Reads (Pattern.atLine r b) u v ↔ b.all (· == '\n') ∧ Reads r u v := by
  rw [Reads, Reads, Pattern.atLine]
  split
  · next h => simp [h]
  · next h => simp [h]

end Patterns

/-! ## The course of a scan -/

/-- The pieces into which a pattern cuts a text, from hit to hit. -/
inductive Scanned (p : Pattern) : Option Char → Nat → Nat → Text → List Piece → Prop
  | nil {b : Option Char} {l n : Nat} : Scanned p b l n [] []
  | plain {b : Option Char} {l n : Nat} {c : Char} {t : Text} {ps : List Piece}
      (unread : ∀ m, p b (c :: t) ≠ some (m + 1))
      (rest : Scanned p (some c) (if c = '\n' then l + 1 else l) n t ps) :
      Scanned p b l n (c :: t) (.plain c :: ps)
  | hit {b : Option Char} {l n : Nat} {u v : Text} {ps : List Piece}
      (covers : u ≠ []) (read : Reads (p b) u v)
      (rest : Scanned p u.getLast? (l + u.count '\n') (n + 1) v ps) :
      Scanned p b l n (u ++ v) (.hit ⟨n, l, u⟩ :: ps)

theorem getLast?_cons_eq_or (c : Char) (u : Text) :
    (c :: u).getLast? = u.getLast?.or (some c) := by
  cases u <;> simp [List.getLast?_cons]

/-- What stands in front of a text that has a first character. -/
theorem getLast?_cons_or (c : Char) (a : Text) (b : Option Char) :
    (c :: a).getLast?.or b = a.getLast?.or (some c) := by
  rw [getLast?_cons_eq_or, Option.or_assoc, Option.some_or]

theorem count_newline_cons (l : Nat) (c : Char) (u : Text) :
    l + (c :: u).count '\n' = (if c = '\n' then l + 1 else l) + u.count '\n' := by
  by_cases hc : c = '\n'
  · simp [hc]
    omega
  · simp [hc]

/-- The characters that a hit still covers are passed over. -/
theorem scanOnto_covered (p : Pattern) (v : Text) (n : Nat) (acc : List Piece) :
    ∀ (u : Text) (b : Option Char) (l : Nat),
      scanOnto p ⟨b, l, n, u.length⟩ (u ++ v) acc =
        scanOnto p ⟨u.getLast?.or b, l + u.count '\n', n, 0⟩ v acc
  | [], b, l => by simp
  | c :: u, b, l => by
    rw [List.cons_append, scanOnto]
    simp only [List.length_cons, Cursor.past]
    rw [scanOnto_covered p v n acc u, getLast?_cons_eq_or, count_newline_cons, Option.or_assoc]
    rfl

theorem exists_scanned (p : Pattern) [∀ b, Within (p b)] :
    ∀ (k : Nat) (t : Text) (b : Option Char) (l n : Nat) (acc : List Piece), t.length = k →
      ∃ ps, scanOnto p ⟨b, l, n, 0⟩ t acc = ps.reverse ++ acc ∧ Scanned p b l n t ps := by
  intro k
  -- a hit covers several characters, so the induction is on the length
  induction k using Nat.strong_induction_on with
  | _ k ih =>
    intro t b l n acc hk
    cases t with
    | nil => exact ⟨[], by simp [scanOnto], .nil⟩
    | cons c t =>
      rw [scanOnto]
      dsimp only
      split
      · next m hm =>
        obtain ⟨u, v, e, hu, hr⟩ := exists_reads hm
        obtain ⟨d, u, rfl⟩ := List.exists_cons_of_length_eq_add_one hu
        rw [List.cons_append, List.cons.injEq] at e
        obtain ⟨rfl, rfl⟩ := e
        obtain rfl : u.length = m := by simpa using hu
        have hv : v.length < k := by
          simp only [List.length_cons, List.length_append] at hk
          omega
        have htake : (c :: (u ++ v)).take (u.length + 1) = c :: u := by simp
        rw [Cursor.past, scanOnto_covered, htake]
        obtain ⟨ps, e, h⟩ := ih v.length hv v (u.getLast?.or (some c))
          ((if c = '\n' then l + 1 else l) + u.count '\n') (n + 1) (.hit ⟨n, l, c :: u⟩ :: acc) rfl
        refine ⟨.hit ⟨n, l, c :: u⟩ :: ps, e.trans (by simp), Scanned.hit (by simp) hr ?_⟩
        rw [getLast?_cons_eq_or, count_newline_cons]
        exact h
      · next hm =>
        obtain ⟨ps, e, h⟩ := ih t.length (by simp [← hk]) t (some c)
          (if c = '\n' then l + 1 else l) n (.plain c :: acc) rfl
        exact ⟨.plain c :: ps, by simpa [Cursor.past] using e, Scanned.plain hm h⟩

/-- A scan cuts the text from hit to hit. -/
theorem scanned_scan (p : Pattern) [∀ b, Within (p b)] (t : Text) :
    Scanned p none 1 0 t (scan p t) := by
  obtain ⟨ps, e, h⟩ := exists_scanned p t.length t none 1 0 [] rfl
  rw [scan]
  rw [e]
  simpa using h

/-! ## The pieces of a scan -/

namespace Piece

variable {c : Char} {h : Hit} {ps : List Piece} {f : Hit → Text}

@[simp] theorem hits_nil : hits [] = [] := rfl

@[simp] theorem hits_plain : hits (.plain c :: ps) = hits ps := rfl

@[simp] theorem hits_hit : hits (.hit h :: ps) = h :: hits ps := rfl

@[simp] theorem replace_nil : replace f [] = [] := rfl

@[simp] theorem replace_plain : replace f (.plain c :: ps) = c :: replace f ps := rfl

@[simp] theorem replace_hit : replace f (.hit h :: ps) = f h ++ replace f ps := rfl

/-- To put every hit back is to change nothing. -/
theorem replace_covered (ps : List Piece) : replace Hit.covered ps = ps.flatMap source := by
  induction ps with
  | nil => rfl
  | cons q ps ih =>
    cases q with
    | plain c => simp [ih, source]
    | hit h => simp [ih, source]

end Piece

theorem replace_covered_scan (p : Pattern) (t : Text) :
    Piece.replace Hit.covered (scan p t) = t := by
  rw [Piece.replace_covered, flatMap_source_scan]

/-- Every hit is read by the pattern at its place. -/
theorem Scanned.reads {p : Pattern} {b : Option Char} {l n : Nat} {t : Text} {ps : List Piece}
    (s : Scanned p b l n t ps) {h : Hit} (hh : h ∈ Piece.hits ps) :
    h.covered ≠ [] ∧ ∃ b v, Reads (p b) h.covered v := by
  induction s with
  | nil => simp at hh
  | plain _ _ ih => exact ih hh
  | @hit b l n u v ps covers read _ ih =>
    rw [Piece.hits_hit, List.mem_cons] at hh
    obtain rfl | hh := hh
    · exact ⟨covers, b, v, read⟩
    · exact ih hh

theorem reads_of_mem_hits {p : Pattern} [∀ b, Within (p b)] {t : Text} {h : Hit}
    (hh : h ∈ hits p t) : h.covered ≠ [] ∧ ∃ b v, Reads (p b) h.covered v :=
  (scanned_scan p t).reads hh

theorem Scanned.eq_nil {p : Pattern} {b : Option Char} {l n : Nat} {t : Text} {ps : List Piece}
    (s : Scanned p b l n t ps) (h : t = []) : ps = [] := by
  cases s with
  | nil => rfl
  | plain _ _ => simp at h
  | hit covers _ _ => exact absurd (List.append_eq_nil_iff.mp h).1 covers

/-- A text that is read as a whole is one hit. -/
theorem scan_of_reads {p : Pattern} [∀ b, Within (p b)] {t : Text} (nonempty : t ≠ [])
    (h : Reads (p none) t []) : scan p t = [.hit ⟨0, 1, t⟩] := by
  have hs := scanned_scan p t
  generalize scan p t = ps at hs ⊢
  generalize e : t = s at hs
  cases hs with
  | nil => exact absurd e nonempty
  | plain unread _ =>
    rw [Reads, List.append_nil, e, List.length_cons] at h
    exact absurd h (unread _)
  | hit _ read rest =>
    obtain rfl := h.unique read (by rw [List.append_nil, e])
    rw [rest.eq_nil (List.self_eq_append_right.mp e), ← e]

theorem mem_of_mem_covered {p : Pattern} {t : Text} {h : Hit} (hh : h ∈ hits p t) {c : Char}
    (hc : c ∈ h.covered) : c ∈ t := by
  obtain ⟨q, hq, hqh⟩ := List.mem_filterMap.mp hh
  rw [← flatMap_source_scan p t, List.mem_flatMap]
  refine ⟨q, hq, ?_⟩
  cases q with
  | plain d => simp at hqh
  | hit x =>
    obtain rfl := Option.some.inj hqh
    exact hc

section Places

variable {p : Pattern} {b : Option Char} {l n : Nat} {t : Text} {ps : List Piece}

/-- Every hit stands somewhere in the text, on the line that it tells. -/
theorem Scanned.exists_place_of_mem_hits (s : Scanned p b l n t ps) {h : Hit}
    (hh : h ∈ Piece.hits ps) : ∃ a v, t = a ++ (h.covered ++ v) ∧ h.line = l + a.count '\n' ∧
      Reads (p (a.getLast?.or b)) h.covered v := by
  induction s with
  | nil => simp at hh
  | @plain b l n c t ps _ _ ih =>
    obtain ⟨a, v, rfl, hline, hread⟩ := ih hh
    refine ⟨c :: a, v, rfl, by rw [hline, count_newline_cons], ?_⟩
    rwa [getLast?_cons_or]
  | @hit b l n u v ps covers read _ ih =>
    obtain rfl | hh := List.mem_cons.mp hh
    · exact ⟨[], v, rfl, rfl, read⟩
    · obtain ⟨a, v, rfl, hline, hread⟩ := ih hh
      obtain ⟨last, hlast⟩ := Option.isSome_iff_exists.mp (List.getLast?_isSome.mpr covers)
      refine ⟨u ++ a, v, (List.append_assoc _ _ _).symm, ?_, ?_⟩
      · rw [hline, List.count_append, Nat.add_assoc]
      · rwa [List.getLast?_append, hlast, Option.or_assoc, Option.some_or, ← hlast]

theorem exists_place_of_mem_hits [∀ b, Within (p b)] {h : Hit} (hh : h ∈ hits p t) :
    ∃ a v, t = a ++ (h.covered ++ v) ∧ h.line = a.count '\n' + 1 ∧
      Reads (p a.getLast?) h.covered v := by
  obtain ⟨a, v, e, hline, hread⟩ := (scanned_scan p t).exists_place_of_mem_hits hh
  exact ⟨a, v, e, by rw [hline, Nat.add_comm], by simpa using hread⟩

theorem exists_of_mem_hits [∀ b, Within (p b)] {h : Hit} (hh : h ∈ hits p t) :
    ∃ a v, t = a ++ (h.covered ++ v) ∧ Reads (p a.getLast?) h.covered v := by
  obtain ⟨a, v, e, -, hread⟩ := exists_place_of_mem_hits hh
  exact ⟨a, v, e, hread⟩

/-- Hits are numbered as they follow one another. -/
theorem Scanned.map_number (s : Scanned p b l n t ps) :
    (Piece.hits ps).map Hit.number = List.range' n (Piece.hits ps).length := by
  induction s with
  | nil => rfl
  | plain _ _ ih => exact ih
  | hit _ _ _ ih => rw [Piece.hits_hit, List.map_cons, ih, List.length_cons, List.range'_succ]

theorem map_number_hits [∀ b, Within (p b)] :
    (hits p t).map Hit.number = List.range (hits p t).length := by
  rw [List.range_eq_range']
  exact (scanned_scan p t).map_number

/-- **If a pattern reads words only, every place where it reads one is hit**: none begins inside of
another. -/
theorem Scanned.exists_hit_of_word (words : ∀ {b u v}, Reads (p b) u v → ∀ c ∈ u, isWord c)
    (s : Scanned p b l n t ps) {a u v : Text} (e : t = a ++ (u ++ v)) (nonempty : u ≠ [])
    (fresh : ¬ (a.getLast?.or b).any isWord) (read : Reads (p (a.getLast?.or b)) u v) :
    ∃ h ∈ Piece.hits ps, h.covered = u := by
  induction s generalizing a with
  | nil => simp_all
  | @plain b l n c t ps unread _ ih =>
    cases a with
    | nil =>
      obtain ⟨m, hm⟩ := read.exists_succ nonempty
      rw [List.nil_append] at e
      rw [← e] at hm
      exact absurd hm (unread m)
    | cons d a =>
      rw [List.cons_append, List.cons.injEq] at e
      obtain ⟨rfl, e⟩ := e
      rw [getLast?_cons_or] at fresh read
      exact ih e fresh read
  | @hit b l n w t ps covers read' _ ih =>
    obtain ⟨a', rfl, hrest⟩ | ⟨z, hz, hrest⟩ := List.append_eq_append_iff.mp e
    · obtain ⟨last, hlast⟩ := Option.isSome_iff_exists.mp (List.getLast?_isSome.mpr covers)
      rw [List.getLast?_append, hlast, Option.or_assoc, Option.some_or, ← hlast] at fresh read
      obtain ⟨h, hh, hcovered⟩ := ih hrest fresh read
      exact ⟨h, List.mem_cons_of_mem _ hh, hcovered⟩
    · by_cases ha : a = []
      · subst ha
        exact ⟨⟨n, l, w⟩, by simp, read'.unique read e⟩
      · -- the word in which the other one would begin
        obtain ⟨last, hlast⟩ := Option.isSome_iff_exists.mp (List.getLast?_isSome.mpr ha)
        have hmem : last ∈ w := by
          rw [hz]
          exact List.mem_append_left z (List.mem_of_getLast? hlast)
        rw [hlast, Option.some_or, Option.any_some] at fresh
        exact absurd (words read' last hmem) fresh

end Places

/-- **A pattern has hits in a text exactly if it reads something at some place of it.** -/
theorem hits_ne_nil_iff {p : Pattern} [∀ b, Within (p b)] {t : Text} :
    hits p t ≠ [] ↔ ∃ a u v, t = a ++ (u ++ v) ∧ u ≠ [] ∧ Reads (p a.getLast?) u v := by
  constructor
  · intro hne
    obtain ⟨h, hh⟩ := List.exists_mem_of_ne_nil _ hne
    obtain ⟨a, v, e, hread⟩ := exists_of_mem_hits hh
    exact ⟨a, h.covered, v, e, (reads_of_mem_hits hh).1, hread⟩
  · have hscan : ∀ {b l n t ps}, Scanned p b l n t ps → ∀ {a u v}, t = a ++ (u ++ v) → u ≠ [] →
        Reads (p (a.getLast?.or b)) u v → Piece.hits ps ≠ [] := by
      intro b l n t ps s
      induction s with
      | nil =>
        intro a u v e hu
        simp_all
      | @plain b l n c t ps unread _ ih =>
        intro a u v e hu hread
        cases a with
        | nil =>
          obtain ⟨d, u, rfl⟩ := List.exists_cons_of_ne_nil hu
          rw [List.nil_append] at e
          rw [Reads, ← e] at hread
          exact absurd hread (unread _)
        | cons d a =>
          rw [List.cons_append, List.cons.injEq] at e
          obtain ⟨rfl, e⟩ := e
          rw [getLast?_cons_or] at hread
          exact ih e hu hread
      | hit _ _ _ => intros; simp
    rintro ⟨a, u, v, e, hu, hread⟩
    exact hscan (scanned_scan p t) e hu (by simpa using hread)

/-! ## The first hit -/

theorem findFrom_reads {p : Pattern} [∀ b, Within (p b)] {t : Text} :
    ∀ {before : Text} {m : Match}, findFrom p before t = some m →
      m.covered ≠ [] ∧ Reads (p m.before.getLast?) m.covered m.after := by
  induction t with
  | nil => simp [findFrom]
  | cons c t ih =>
    intro before m h
    rw [findFrom] at h
    split at h
    · next n hn =>
      obtain ⟨u, v, e, hu, hr⟩ := exists_reads hn
      obtain rfl := Option.some.inj h
      rw [e, List.take_left' hu, List.drop_left' hu, List.getLast?_reverse]
      refine ⟨?_, hr⟩
      rintro rfl
      simp at hu
    · exact ih h

/-- The first hit is read by the pattern at its place. -/
theorem firstMatch?_reads {p : Pattern} [∀ b, Within (p b)] {t : Text} {m : Match}
    (h : firstMatch? p t = some m) :
    m.covered ≠ [] ∧ Reads (p m.before.getLast?) m.covered m.after :=
  findFrom_reads h

theorem occurs_iff {p : Pattern} {t : Text} : occurs p t ↔ ∃ m, firstMatch? p t = some m := by
  rw [occurs, Option.isSome_iff_exists]

/-! ## What replacements hold -/

section Replace

variable {c : Char} {p : Pattern} {f g : Hit → Text} {ps : List Piece} {t : Text}

theorem Piece.mem_of_mem_replace (hc : c ∈ replace f ps) :
    .plain c ∈ ps ∨ ∃ h ∈ hits ps, c ∈ f h := by
  induction ps with
  | nil => simp at hc
  | cons q ps ih =>
    cases q with
    | plain d =>
      rw [replace_plain, List.mem_cons] at hc
      obtain rfl | hc := hc
      · simp
      · obtain hc | hc := ih hc
        · exact .inl (List.mem_cons_of_mem _ hc)
        · exact .inr hc
    | hit h =>
      rw [replace_hit, List.mem_append] at hc
      obtain hc | hc := hc
      · exact .inr ⟨h, by simp, hc⟩
      · obtain hc | ⟨h', hh, hc⟩ := ih hc
        · exact .inl (List.mem_cons_of_mem _ hc)
        · exact .inr ⟨h', by simp [hh], hc⟩

/-- A text with replaced hits holds only its own characters and those of the replacements. -/
theorem mem_of_mem_replaceHits (hc : c ∈ replaceHits p f t) :
    c ∈ t ∨ ∃ h ∈ hits p t, c ∈ f h := by
  obtain hc | hc := Piece.mem_of_mem_replace hc
  · left
    rw [← flatMap_source_scan p t, List.mem_flatMap]
    exact ⟨_, hc, by simp [Piece.source]⟩
  · exact .inr hc

theorem mem_of_mem_replaceFirst {new : Text} (hc : c ∈ replaceFirst p new t) :
    c ∈ t ∨ c ∈ new := by
  rw [replaceFirst] at hc
  split at hc
  · next m hm =>
    rw [← firstMatch?_eq_some hm]
    simp only [List.mem_append] at hc ⊢
    tauto
  · exact .inl hc

theorem replaceHits_of_hits_eq_nil (h : hits p t = []) : replaceHits p f t = t := by
  have hsame : ∀ ps, Piece.hits ps = [] → Piece.replace f ps = Piece.replace Hit.covered ps := by
    intro ps hps
    induction ps with
    | nil => rfl
    | cons q ps ih =>
      cases q with
      | plain c => simp_all
      | hit h => simp at hps
  rw [replaceHits, hsame _ h, replace_covered_scan]

variable {q : Char → Bool}

theorem Piece.countP_replace_eq (h : ∀ x ∈ hits ps, (f x).countP q = (g x).countP q) :
    (replace f ps).countP q = (replace g ps).countP q := by
  induction ps with
  | nil => rfl
  | cons r ps ih =>
    cases r with
    | plain c => simp only [replace_plain, List.countP_cons, ih h]
    | hit x =>
      rw [replace_hit, replace_hit, List.countP_append, List.countP_append, h x (by simp),
        ih fun y hy => h y (by simp [hy])]

theorem Piece.countP_replace_le (h : ∀ x ∈ hits ps, (f x).countP q ≤ (g x).countP q) :
    (replace f ps).countP q ≤ (replace g ps).countP q := by
  induction ps with
  | nil => exact le_refl _
  | cons r ps ih =>
    cases r with
    | plain c =>
      have := ih h
      simp only [replace_plain, List.countP_cons]
      omega
    | hit x =>
      rw [replace_hit, replace_hit, List.countP_append, List.countP_append]
      exact Nat.add_le_add (h x (by simp)) (ih fun y hy => h y (by simp [hy]))

theorem Piece.countP_replace_lt (nonempty : hits ps ≠ [])
    (h : ∀ x ∈ hits ps, (f x).countP q < (g x).countP q) :
    (replace f ps).countP q < (replace g ps).countP q := by
  induction ps with
  | nil => simp at nonempty
  | cons r ps ih =>
    cases r with
    | plain c =>
      have := ih nonempty h
      simp only [replace_plain, List.countP_cons]
      omega
    | hit x =>
      rw [replace_hit, replace_hit, List.countP_append, List.countP_append]
      exact Nat.add_lt_add_of_lt_of_le (h x (by simp))
        (countP_replace_le fun y hy => (h y (by simp [hy])).le)

end Replace

/-! ## Replacements that leave a mark -/

/-- Whatever comes behind two texts, it does not make them the same. -/
def Clash (a b : Text) : Prop := ∀ u v, a ++ u ≠ b ++ v

namespace Clash

variable {a b : Text}

theorem of_ne {c d : Char} (h : c ≠ d) (a b : Text) : Clash (c :: a) (d :: b) := by
  intro u v e
  exact h (List.cons.inj e).1

theorem append_left (w : Text) (h : Clash a b) : Clash (w ++ a) (w ++ b) := by
  intro u v e
  rw [List.append_assoc, List.append_assoc, List.append_cancel_left_eq] at e
  exact h u v e

theorem cons (c : Char) (h : Clash a b) : Clash (c :: a) (c :: b) := append_left [c] h

/-- White space in front of a text does not hide that the text clashes with what follows a blank. -/
theorem of_blanks {gap a b : Text} {c d : Char} (hgap : ∀ x ∈ gap, isBlank x) (hc : ¬ isBlank c)
    (hd : ¬ isBlank d) (h : Clash (c :: a) (d :: b)) : Clash (gap ++ c :: a) (' ' :: d :: b) := by
  have hne : ∀ {x y : Char}, isBlank x → ¬ isBlank y → x ≠ y := by
    rintro x y hx hy rfl
    exact hy hx
  cases gap with
  | nil => exact of_ne (hne (by decide) hc).symm _ _
  | cons x gap =>
    by_cases hx : x = ' '
    · subst hx
      refine cons ' ' ?_
      cases gap with
      | nil => exact h
      | cons y gap => exact of_ne (hne (hgap y (by simp)) hd) _ _
    · exact of_ne hx _ _

end Clash

/-- A hit that clashes with what replaces it changes the text. -/
theorem Piece.replace_ne {f : Hit → Text} {ps : List Piece} (nonempty : hits ps ≠ [])
    (clash : ∀ h ∈ hits ps, Clash h.covered (f h)) : replace f ps ≠ replace Hit.covered ps := by
  induction ps with
  | nil => simp at nonempty
  | cons q ps ih =>
    cases q with
    | plain c =>
      rw [replace_plain, replace_plain]
      intro e
      exact ih nonempty clash (List.cons.inj e).2
    | hit h =>
      rw [replace_hit, replace_hit]
      exact (clash h (by simp) _ _).symm

theorem replaceHits_ne {p : Pattern} {f : Hit → Text} {t : Text} (nonempty : hits p t ≠ [])
    (clash : ∀ h ∈ hits p t, Clash h.covered (f h)) : replaceHits p f t ≠ t := by
  have h := Piece.replace_ne nonempty clash
  rwa [replace_covered_scan] at h

theorem replaceFirst_ne {p : Pattern} {new t : Text} {m : Match} (h : firstMatch? p t = some m)
    (clash : Clash m.covered new) : replaceFirst p new t ≠ t := by
  rw [replaceFirst, h]
  dsimp only
  intro e
  have ht := firstMatch?_eq_some h
  rw [← e, List.append_assoc, List.append_assoc, List.append_cancel_left_eq] at ht
  exact clash _ _ ht

end Mend.Text

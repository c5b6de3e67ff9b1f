import Mend.Proofs.Fix.Hygiene
import Mend.Proofs.Text.Characters
import Mend.Proofs.Text.Seams

/-!
# Look-ups of secrets stay what they are

An assignment of a secret that begins inside a look-up would have the sign of the look-up, which no
literal follows, or a quote in front of its sign. One that reaches into a look-up would have the
name in front of it in its literal, and then the blank behind the sign.

* `Secret.text_append_ne`, `Secret.append_ne_externalized`: what an assignment and a look-up cannot
  share.
* `hits_secretAssignment_externalized`: after secrets were moved, there are none to move.
-/

namespace Mend

open Text Reader Idiom

namespace Idiom

namespace Secret

variable (s : Secret)

/-- What stands in front of the literal, but for the name. -/
def middle : Text := s.gap ++ s.sign :: (s.space ++ [s.opening])

theorem text_eq : s.text = s.name ++ (s.middle ++ (s.secret ++ [s.closing])) := by
  simp [text, assigned, middle]

theorem not_isWord_sign : ¬ isWord s.sign := by
  obtain h | h := s.sign_eq <;> rw [h] <;> decide

theorem not_isWord_of_mem_middle {c : Char} (h : c ∈ s.middle) : ¬ isWord c := by
  simp only [middle, List.mem_append, List.mem_cons, List.not_mem_nil, or_false] at h
  obtain h | rfl | h | rfl := h
  · exact not_isWord_of_isBlank (s.blank_of_mem_gap c h)
  · exact s.not_isWord_sign
  · exact not_isWord_of_isBlank (s.blank_of_mem_space c h)
  · exact not_isWord_of_isQuote s.opening_quotes

/-- A word that starts in an assignment, but not with it, starts in the literal. -/
theorem suffix_secret {x y : Text} (cut : s.text = x ++ y) (front : x ≠ [])
    (hx : ¬ x.getLast?.any isWord) (hy : y.head?.any isWord) :
    ∃ z, z <:+ s.secret ∧ y = z ++ [s.closing] := by
  obtain ⟨c, y, rfl⟩ := List.exists_cons_of_ne_nil (l := y) (by rintro rfl; simp at hy)
  have hmiddle : c ∉ s.middle := fun h => s.not_isWord_of_mem_middle h (by simpa using hy)
  rw [text_eq] at cut
  have hsuffix : c :: y <:+ s.secret ++ [s.closing] := by
    obtain ⟨x', -, hrest⟩ | ⟨z, hname, -⟩ := List.append_eq_append_iff.mp cut
    · obtain ⟨x'', -, hend⟩ | ⟨z, hz, hend⟩ := List.append_eq_append_iff.mp hrest
      · exact ⟨x'', hend.symm⟩
      · cases z with
        | nil => exact ⟨[], hend⟩
        | cons d z =>
          obtain ⟨rfl, -⟩ := List.cons.inj hend
          exact absurd (by simp [hz]) hmiddle
    · -- the name would go on in front of the word
      refine absurd ?_ hx
      obtain ⟨d, hd⟩ := Option.isSome_iff_exists.mp (List.getLast?_isSome.mpr front)
      have hmem : d ∈ s.name := by
        rw [hname]
        exact List.mem_append_left z (List.mem_of_getLast? hd)
      rw [hd, Option.any_some]
      exact s.word_of_mem_name d hmem
  obtain h | ⟨z, h, hz⟩ := List.suffix_concat_iff.mp hsuffix
  · cases h
  · exact ⟨z, hz, h⟩

/-! ### Look-ups -/

theorem word_or_blank_of_mem_kept {c : Char} (h : c ∈ s.kept) : isWord c ∨ isBlank c := by
  rw [kept] at h
  split at h
  · exact .inl (s.word_of_mem_name c h)
  · obtain h | h := List.mem_append.mp h
    · exact .inl (s.word_of_mem_name c h)
    · exact .inr (s.blank_of_mem_gap c h)

/-- The sign is the only character of its kind up to the literal. -/
theorem not_isAssignment {c : Char} (h : isWord c ∨ isBlank c) : ¬ isAssignment c := by
  intro hc
  rw [isAssignment, Bool.or_eq_true, beq_iff_eq, beq_iff_eq] at hc
  obtain rfl | rfl := hc
  · exact absurd h (by decide)
  · exact absurd h (by decide)

theorem not_isAssignment_of_mem_lookup {c : Char} (h : c ∈ s.lookup) : ¬ isAssignment c := by
  intro hc
  rw [isAssignment, Bool.or_eq_true, beq_iff_eq, beq_iff_eq] at hc
  obtain ⟨hcode, hword, hother⟩ : (0 < c.toNat ∧ c.toNat < 65) ∧ ¬ isWord c ∧
      c ∉ ' ' :: ("process.env.".toList ++ " || 'REPLACE_WITH_ENV_VAR'".toList) := by
    obtain rfl | rfl := hc <;> decide
  rw [List.mem_cons, List.mem_append, not_or, not_or] at hother
  rw [lookup, List.mem_cons, List.mem_append, List.mem_append] at h
  obtain h | h | h | h := h
  · exact hother.1 h
  · exact hother.2.1 h
  · exact s.not_mem_environmentName hcode hword h
  · exact hother.2.2 h

theorem exists_lookup_eq : ∃ z, s.lookup = z ++ ['\''] :=
  ⟨' ' :: ("process.env.".toList ++ (Fix.environmentName s.text ++
    " || 'REPLACE_WITH_ENV_VAR".toList)), by simp [lookup]⟩

/-- An assignment, cut at its sign. -/
theorem text_append (v : Text) : s.text ++ v = (s.name ++ s.gap) ++
    s.sign :: (s.space ++ s.opening :: (s.secret ++ [s.closing]) ++ v) := by
  simp [text, assigned]

theorem word_or_blank_of_mem_front {c : Char} (h : c ∈ s.name ++ s.gap) : isWord c ∨ isBlank c :=
  (List.mem_append.mp h).imp (s.word_of_mem_name c) (s.blank_of_mem_gap c)

/-- **No assignment of a secret begins inside a look-up.** Its sign would be that of the look-up,
which has no literal behind it, or else there would be a quote in front of its sign. -/
theorem text_append_ne (s' : Secret) {x y : Text} (cut : Fix.externalized s'.text = x ++ y)
    (nonempty : y ≠ []) (v w : Text) : s.text ++ v ≠ y ++ w := by
  have hfront : ∀ c ∈ s.name ++ s.gap, ¬ isAssignment c := fun c hc =>
    not_isAssignment (s.word_or_blank_of_mem_front hc)
  have hsign : ∀ z, z <:+ s'.kept → s.text ++ v ≠ z ++ s'.sign :: s'.lookup ++ w := by
    intro z hz e
    rw [text_append, List.append_assoc z, List.cons_append] at e
    have hkept : ∀ c ∈ z, ¬ isAssignment c := fun c hc =>
      not_isAssignment (s'.word_or_blank_of_mem_kept (hz.subset hc))
    obtain ⟨-, hrest⟩ := append_cons_unique hfront hkept s.sign_assigns s'.sign_assigns e
    exact s.clash_lookup s' _ _ (List.cons.inj hrest).2
  have hlookup : y <:+ s'.lookup → s.text ++ v ≠ y ++ w := by
    intro hy e
    rw [text_append] at e
    have hpre : y <+: s.name ++ s.gap := prefix_of_append_cons
      (fun c hc => s'.not_isAssignment_of_mem_lookup (hy.subset hc)) s.sign_assigns e.symm
    obtain ⟨z, hz⟩ := s'.exists_lookup_eq
    rw [hz] at hy
    obtain h | ⟨y', h, -⟩ := List.suffix_concat_iff.mp hy
    · exact nonempty h
    · have hquote : '\'' ∈ y := by simp [h]
      have hquote := s.word_or_blank_of_mem_front (hpre.subset hquote)
      exact absurd hquote (by decide)
  rw [externalized_text] at cut
  obtain ⟨z, -, hrest⟩ | ⟨z, hz, rfl⟩ := List.append_eq_append_iff.mp cut
  · cases z with
    | nil =>
      obtain rfl : s'.sign :: s'.lookup = y := hrest
      exact hsign [] List.nil_suffix
    | cons d z => exact hlookup ⟨z, (List.cons.inj hrest).2.symm⟩
  · exact hsign z ⟨x, hz.symm⟩

/-- **No assignment of a secret reaches into a look-up.** The name in front of the look-up would
stand in a literal that goes on to the quote behind the sign, over white space. -/
theorem append_ne_externalized (s' : Secret) (hname : s'.name ≠ [])
    (hsecret : ∀ c ∈ s.secret, isSecretChar c) (hclosing : isQuote s.closing) {x y : Text}
    (cut : s.text = x ++ y) (front : x ≠ []) (hx : ¬ x.getLast?.any isWord) (nonempty : y ≠ [])
    (v w : Text) : y ++ v ≠ Fix.externalized s'.text ++ w := by
  intro e
  rw [externalized_text, List.append_assoc] at e
  have hy : y.head?.any isWord := by
    obtain ⟨c, name, hc⟩ := List.exists_cons_of_ne_nil hname
    have hkept : s'.kept.head? = some c := by
      rw [kept]
      split <;> simp [hc]
    have hhead := congrArg List.head? e
    rw [List.head?_append_of_ne_nil y nonempty, List.head?_append, hkept, Option.some_or] at hhead
    rw [hhead, Option.any_some]
    exact s'.word_of_mem_name c (by simp [hc])
  obtain ⟨z, hz, rfl⟩ := s.suffix_secret cut front hx hy
  have hquoteless : ∀ c ∈ s'.kept ++ [s'.sign, ' '], ¬ isQuote c := by
    intro c hc
    rw [List.mem_append, List.mem_pair] at hc
    obtain hc | rfl | rfl := hc
    · intro hquote
      obtain hc | hc := s'.word_or_blank_of_mem_kept hc
      · exact not_isWord_of_isQuote hquote hc
      · exact not_isBlank_of_isQuote hquote hc
    · obtain h | h := s'.sign_eq <;> rw [h] <;> decide
    · decide
  have hpre : s'.kept ++ [s'.sign, ' '] <+: z := by
    obtain ⟨tail, htail⟩ : ∃ tail, s'.lookup = ' ' :: tail := ⟨_, rfl⟩
    have e' : (s'.kept ++ [s'.sign, ' ']) ++ (tail ++ w) = z ++ s.closing :: v := by
      simpa [htail] using e.symm
    exact prefix_of_append_cons hquoteless hclosing e'
  have hblank : ' ' ∈ s.secret := hz.subset (hpre.subset (by simp))
  exact absurd (hsecret ' ' hblank) (by decide)

end Secret

end Idiom

namespace Fix

/-! ## Secrets -/

theorem fixed_externalizeSecrets (t : Text) (i : Issue) : (externalizeSecrets t i).fixed =
    replaceHits secretAssignment (fun h => externalized h.covered) t := by
  rw [externalizeSecrets]
  split
  · next h => exact (replaceHits_of_hits_eq_nil (List.isEmpty_iff.mp h)).symm
  · rfl

/-- **After secrets were moved, there are none to move.** -/
theorem hits_secretAssignment_externalized (t : Text) :
    hits secretAssignment (replaceHits secretAssignment (fun h => externalized h.covered) t) =
      [] := by
  by_contra hfound
  obtain ⟨a, u, v, e, hne, hread⟩ := hits_ne_nil_iff.mp hfound
  obtain ⟨s, rfl, -, hsecret, hclosing⟩ := secretAssignment_secret hread
  have hword : ¬ a.getLast?.any isWord := (reads_atWord.mp hread).1
  cases (scanned_scan secretAssignment t).standing hne e with
  | @apart d z _ unread before =>
    have hd : ¬ (d.getLast?.or none).any isWord := by
      obtain before | ⟨b, h, ps, ⟨v', _, _, hbehind, -⟩, before⟩ := before
      · rwa [before, Option.or_none]
      · obtain ⟨s', hs', -, -, hclosing'⟩ := secretAssignment_secret hbehind
        rw [before, hs', Secret.text_eq, ← List.append_assoc, ← List.append_assoc,
          List.getLast?_concat, Option.any_some]
        exact not_isWord_of_isQuote hclosing'
    obtain ⟨m, hm⟩ := (reads_secretAssignment hread hd z).exists_succ hne
    exact unread m hm
  | inside behind cut nonempty text_eq =>
    obtain ⟨_, _, _, hbehind, -⟩ := behind
    obtain ⟨s', hs', -⟩ := secretAssignment_secret hbehind
    rw [hs'] at cut
    exact s.text_append_ne s' cut nonempty _ _ text_eq
  | across cut front crossing =>
    obtain ⟨_, _, _, hbehind, -⟩ := crossing.behind
    obtain ⟨s', hs', hname, -⟩ := secretAssignment_secret hbehind
    have hx := (reads_atWord.mp hbehind).1
    rw [Option.or_none] at hx
    have htext := crossing.text_eq
    rw [hs'] at htext
    exact s.append_ne_externalized s' hname hsecret hclosing cut front hx crossing.nonempty _ _
      htext

end Fix

end Mend

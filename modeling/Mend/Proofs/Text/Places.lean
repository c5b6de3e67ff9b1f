import Mend.Proofs.Text.Scanning

/-!
# Places of hits, before and after hits are replaced

A place in a text with replaced hits lies between two pieces or inside of what replaces a hit. It
comes from a place in the text as it was: the same one for the pieces in front of it, and the one
where the hit starts.

* `places`, `map_snd_places`, `exists_of_mem_places`: every hit with the text in front of it.
* `Piece.origin`, `Piece.origin_append`: the text in front of a place before hits are replaced.
* `Piece.cut_replace`: where a text with replaced hits can be cut.
* `Piece.count_source`: how many characters of a kind are lost.
-/

namespace Mend.Text

open Reader

namespace Piece

/-- The hits of pieces that stand behind `a`, each with the text in front of it. -/
def placed (a : Text) : List Piece → List (Text × Hit)
  | [] => []
  | .plain c :: ps => placed (a ++ [c]) ps
  | .hit h :: ps => (a, h) :: placed (a ++ h.covered) ps

/-- The text in front of a place, `k` characters into a text with replaced hits, before they are
replaced. A place inside of what replaces a hit comes from where the hit starts. -/
def origin (f : Hit → Text) : Nat → List Piece → Text
  | 0, _ => []
  | _, [] => []
  | k + 1, .plain c :: ps => c :: origin f k ps
  | k + 1, .hit h :: ps =>
    if (f h).length ≤ k + 1 then h.covered ++ origin f (k + 1 - (f h).length) ps else []

variable {f : Hit → Text} {ps qs : List Piece} {a b : Text} {c : Char}

theorem placed_append : placed a (ps ++ qs) = placed a ps ++ placed (a ++ ps.flatMap source) qs := by
  induction ps generalizing a with
  | nil => simp [placed]
  | cons q ps ih => cases q <;> simp [placed, ih, source]

theorem map_snd_placed : (placed a ps).map Prod.snd = hits ps := by
  induction ps generalizing a with
  | nil => rfl
  | cons q ps ih => cases q <;> simp [placed, ih]

/-- The text in front of a hit goes on with the hit. -/
theorem prefix_of_mem_placed {x : Text × Hit} (hx : x ∈ placed a ps) :
    a <+: x.1 ∧ x.1 ++ x.2.covered <+: a ++ ps.flatMap source := by
  induction ps generalizing a with
  | nil => cases hx
  | cons q ps ih =>
    cases q with
    | plain c =>
      obtain ⟨hfront, hbehind⟩ := ih hx
      exact ⟨(List.prefix_append _ _).trans hfront, by simpa [source] using hbehind⟩
    | hit h =>
      obtain rfl | hx := List.mem_cons.mp hx
      · exact ⟨List.prefix_rfl, by simp [source]⟩
      · obtain ⟨hfront, hbehind⟩ := ih hx
        exact ⟨(List.prefix_append _ _).trans hfront, by simpa [source] using hbehind⟩

/-- A place between two pieces comes from between the same two pieces. -/
theorem origin_append (h : ∀ x ∈ hits ps, f x ≠ []) :
    origin f (replace f ps).length (ps ++ qs) = ps.flatMap source := by
  induction ps with
  | nil => cases qs <;> rfl
  | cons q ps ih =>
    cases q with
    | plain c =>
      have ih := ih h
      simp [origin, source, ih]
    | hit x =>
      have hx : 0 < (f x).length := List.length_pos_iff.mpr (h x (by simp))
      have ih := ih fun y hy => h y (by simp [hy])
      rw [replace_hit, List.length_append]
      have hlen : (f x).length + (replace f ps).length =
          (f x).length - 1 + (replace f ps).length + 1 := by omega
      rw [hlen, List.cons_append, origin, if_pos (by omega), ← hlen, Nat.add_sub_cancel_left, ih]
      simp [source]

/-- **A text with replaced hits is cut between two pieces or inside of what replaces a hit.** -/
theorem cut_replace (e : replace f ps = a ++ b) :
    (∃ ps₁ ps₂, ps = ps₁ ++ ps₂ ∧ a = replace f ps₁ ∧ b = replace f ps₂) ∨
    ∃ ps₁ h ps₂ x y, ps = ps₁ ++ .hit h :: ps₂ ∧ f h = x ++ y ∧ x ≠ [] ∧ y ≠ [] ∧
      b = y ++ replace f ps₂ := by
  induction ps generalizing a with
  | nil =>
    obtain ⟨rfl, rfl⟩ := List.append_eq_nil_iff.mp e.symm
    exact .inl ⟨[], [], rfl, rfl, rfl⟩
  | cons q ps ih =>
    -- a cut behind the first piece is one of the others
    have hpast : ∀ a', replace f ps = a' ++ b → a = replace f [q] ++ a' →
        (∃ ps₁ ps₂, q :: ps = ps₁ ++ ps₂ ∧ a = replace f ps₁ ∧ b = replace f ps₂) ∨
        ∃ ps₁ h ps₂ x y, q :: ps = ps₁ ++ .hit h :: ps₂ ∧ f h = x ++ y ∧ x ≠ [] ∧ y ≠ [] ∧
          b = y ++ replace f ps₂ := by
      rintro a' hrest rfl
      obtain ⟨ps₁, ps₂, rfl, rfl, hb⟩ | ⟨ps₁, h, ps₂, x, y, rfl, hcut⟩ := ih hrest
      · refine .inl ⟨q :: ps₁, ps₂, rfl, ?_, hb⟩
        cases q <;> simp
      · exact .inr ⟨q :: ps₁, h, ps₂, x, y, rfl, hcut⟩
    by_cases ha : a = []
    · subst ha
      exact .inl ⟨[], q :: ps, rfl, rfl, e.symm⟩
    cases q with
    | plain c =>
      obtain ⟨d, a, rfl⟩ := List.exists_cons_of_ne_nil ha
      rw [replace_plain, List.cons_append, List.cons.injEq] at e
      obtain ⟨rfl, e⟩ := e
      exact hpast a e rfl
    | hit h =>
      rw [replace_hit] at e
      obtain ⟨a', rfl, hrest⟩ | ⟨y, hy, hrest⟩ := List.append_eq_append_iff.mp e
      · exact hpast a' hrest (by simp)
      · by_cases hnil : y = []
        · subst hnil
          exact hpast [] hrest.symm (by simpa using hy.symm)
        · exact .inr ⟨[], h, ps, a, y, rfl, hy, ha, hnil, hrest⟩

/-- What is lost when hits are replaced by something without a character, the hits have. -/
theorem count_source (h : ∀ x ∈ hits ps, c ∉ f x) : (ps.flatMap source).count c =
    (replace f ps).count c + ((hits ps).flatMap Hit.covered).count c := by
  induction ps with
  | nil => rfl
  | cons q ps ih =>
    cases q with
    | plain d =>
      have ih := ih h
      simp [source, List.count_cons, ih]
      omega
    | hit x =>
      have ih := ih fun y hy => h y (by simp [hy])
      have hx : (f x).count c = 0 := List.count_eq_zero_of_not_mem (h x (by simp))
      simp only [List.flatMap_cons, source, List.count_append, ih, replace_hit, hx, hits_hit,
        List.flatMap_cons]
      omega

end Piece

/-! ## Places in a scanned text -/

/-- The hits of a pattern in a text, left to right, each with the text in front of it. -/
def places (p : Pattern) (t : Text) : List (Text × Hit) := Piece.placed [] (scan p t)

section

variable {p : Pattern} {b : Option Char} {l n : Nat} {t a : Text} {ps qs : List Piece}

theorem map_snd_places : (places p t).map Prod.snd = hits p t := Piece.map_snd_placed

theorem Scanned.exists_of_mem_placed (s : Scanned p b l n t ps) {x : Text × Hit}
    (hx : x ∈ Piece.placed a ps) : ∃ z v, x.1 = a ++ z ∧ t = z ++ (x.2.covered ++ v) ∧
      x.2.line = l + z.count '\n' := by
  induction s generalizing a with
  | nil => cases hx
  | @plain b l n c t ps _ _ ih =>
    obtain ⟨z, v, hfront, rfl, hline⟩ := ih hx
    exact ⟨c :: z, v, by rw [hfront]; simp, rfl, by rw [hline, count_newline_cons]⟩
  | @hit b l n u t ps _ _ _ ih =>
    obtain rfl | hx := List.mem_cons.mp hx
    · exact ⟨[], t, by simp, rfl, by simp⟩
    · obtain ⟨z, v, hfront, rfl, hline⟩ := ih hx
      exact ⟨u ++ z, v, by rw [hfront]; simp, by simp,
        by rw [hline, List.count_append, Nat.add_assoc]⟩

/-- Every hit stands at its place, on the line that it tells. -/
theorem exists_of_mem_places [∀ b, Within (p b)] {x : Text × Hit} (hx : x ∈ places p t) :
    ∃ v, t = x.1 ++ (x.2.covered ++ v) ∧ x.2.line = x.1.count '\n' + 1 := by
  obtain ⟨z, v, hfront, rfl, hline⟩ := (scanned_scan p t).exists_of_mem_placed hx
  obtain rfl : x.1 = z := hfront
  exact ⟨v, rfl, by rw [hline, Nat.add_comm]⟩

/-- The pieces from a place on are those of the text from there on. -/
theorem Scanned.exists_behind (s : Scanned p b l n t (ps ++ qs)) :
    ∃ b' l' n', Scanned p b' l' n' (qs.flatMap Piece.source) qs := by
  induction ps generalizing b l n t with
  | nil =>
    have hsource : ∀ {b l n t qs}, Scanned p b l n t qs → t = qs.flatMap Piece.source := by
      intro b l n t qs s
      induction s with
      | nil => rfl
      | plain _ _ ih => simp [Piece.source, ← ih]
      | hit _ _ _ ih => simp [Piece.source, ← ih]
    exact ⟨b, l, n, hsource s ▸ s⟩
  | cons q ps ih =>
    cases s with
    | plain _ rest => exact ih rest
    | hit _ _ rest => exact ih rest

end

end Mend.Text
